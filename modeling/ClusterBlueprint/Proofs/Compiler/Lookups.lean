import ClusterBlueprint.Proofs.Compiler.Resolution

namespace ClusterBlueprint

abbrev LookupLog := List (StackId × Except LookupError StackMetadata)

/-- A failed lookup as a blueprint is told of it: by the id that was looked up, whatever the
registry says is missing. -/
def LookupError.told (blueprint : String) (id : StackId) : LookupError → ResolutionError
  | .notFound _ => .stackNotFound blueprint id
  | .failed fault => .stackUnresolved blueprint id fault

theorem nodup_eraseDups {α : Type} [DecidableEq α] : ∀ items : List α, items.eraseDups.Nodup
  | [] => by simp
  | a :: items => by
      have hrest := nodup_eraseDups (items.filter fun b => !b == a)
      rw [List.eraseDups_cons, List.nodup_cons]
      exact ⟨by simp [List.mem_eraseDups], hrest⟩
termination_by items => items.length
decreasing_by exact Nat.lt_succ_of_le (List.length_filter_le _ _)

namespace StackRegistry

variable {σ : Type}

def logged (registry : StackRegistry σ) : StackRegistry (σ × LookupLog) where
  lookup id := fun (s, log) =>
    let (answer, s) := registry.lookup id s
    (answer, (s, log ++ [(id, answer)]))

def granted (found : List (StackId × StackMetadata)) : LookupLog :=
  found.map fun (id, m) => (id, .ok m)

@[simp]
theorem keys_granted (found : List (StackId × StackMetadata)) :
    (granted found).map Prod.fst = found.map Prod.fst := by
  rw [granted, List.map_map]
  rfl

/-- Whether a log of lookups of the given ids, in their order, ends as it must: after all of them
with what they add to a catalog, or with the first that fails. -/
def Settles (blueprint : String) (ids : List StackId) (found : OrderedMap StackId StackMetadata)
    (log : LookupLog) : Except ResolutionError (OrderedMap StackId StackMetadata) → Prop
  | .ok catalog => ∃ fresh, log = granted fresh ∧ ids = fresh.map Prod.fst ∧
      catalog.entries = found.entries ++ fresh
  | .error e => ∃ fresh id failure rest, log = granted fresh ++ [(id, .error failure)] ∧
      ids = fresh.map Prod.fst ++ id :: rest ∧ e = failure.told blueprint id

theorem Settles.cons {blueprint : String} {id : StackId} {ids : List StackId}
    {found : OrderedMap StackId StackMetadata} {m : StackMetadata} {log : LookupLog}
    {answer : Except ResolutionError (OrderedMap StackId StackMetadata)} (hnew : id ∉ found.keys)
    (h : Settles blueprint ids (found.insert id m) log answer) :
    Settles blueprint (id :: ids) found ((id, .ok m) :: log) answer := by
  cases answer with
  | ok catalog =>
      obtain ⟨fresh, rfl, rfl, hcatalog⟩ := h
      refine ⟨(id, m) :: fresh, rfl, rfl, ?_⟩
      rw [hcatalog, OrderedMap.insert, OrderedMap.entries_alter_of_not_mem hnew, List.append_assoc]
      rfl
  | error e =>
      obtain ⟨fresh, failing, failure, rest, rfl, rfl, rfl⟩ := h
      exact ⟨(id, m) :: fresh, failing, failure, rest, rfl, rfl, rfl⟩

/-- The ids of a list that a catalog lacks, each once and in order. -/
def lacking (found : OrderedMap StackId StackMetadata) (ids : List StackId) : List StackId :=
  (ids.filter fun id => !found.contains id).eraseDups

theorem lacking_empty (ids : List StackId) : lacking ∅ ids = ids.eraseDups := by
  rw [lacking, List.filter_eq_self.mpr]
  exact fun _ _ => rfl

theorem lacking_cons_of_found {found : OrderedMap StackId StackMetadata} {id : StackId}
    (h : found.contains id = true) (ids : List StackId) :
    lacking found (id :: ids) = lacking found ids := by
  rw [lacking, List.filter_cons_of_neg (by simp [h]), lacking]

theorem lacking_cons_of_new {found : OrderedMap StackId StackMetadata} {id : StackId}
    (h : ¬ found.contains id = true) (m : StackMetadata) (ids : List StackId) :
    lacking found (id :: ids) = id :: lacking (found.insert id m) ids := by
  have hcontains : ∀ id', (!(found.insert id m).contains id') =
      ((!id' == id) && !found.contains id') := by
    intro id'
    rw [OrderedMap.contains, OrderedMap.get?_insert]
    split
    · next hid => simp [hid]
    · next hid => simp [hid, OrderedMap.contains]
  rw [lacking, List.filter_cons_of_pos (by simp [h]), List.eraseDups_cons, List.filter_filter,
    lacking]
  simp only [hcontains]

theorem resolveIds_logged (registry : StackRegistry σ) (blueprint : String) (ids : List StackId)
    (found : OrderedMap StackId StackMetadata) (s : σ) (log : LookupLog) :
    ∃ answer s' asked,
      registry.resolveIds blueprint ids found s = (answer, s') ∧
      registry.logged.resolveIds blueprint ids found (s, log) = (answer, (s', log ++ asked)) ∧
      Settles blueprint (lacking found ids) found asked answer := by
  -- On the ids; every lookup moves the state, the log and the catalog.
  induction ids generalizing found s log with
  | nil => exact ⟨.ok found, s, [], rfl, by rw [List.append_nil]; rfl, [], rfl, rfl, by simp⟩
  | cons id ids ih =>
      rw [resolveIds_cons, resolveIds_cons]
      split
      · next hfound =>
          rw [lacking_cons_of_found hfound]
          exact ih found s log
      · next hnew =>
          rcases hlookup : registry.lookup id s with ⟨failure | m, s₁⟩
          · have hlogged : registry.logged.lookup id (s, log) =
                (.error failure, (s₁, log ++ [(id, .error failure)])) := by
              simp only [logged, hlookup]
            refine ⟨.error (failure.told blueprint id), s₁, [(id, .error failure)], ?_, ?_,
              [], id, failure, lacking (found.insert id (.ofId id)) ids, rfl, ?_, rfl⟩
            · cases failure <;> rfl
            · rw [hlogged]
              cases failure <;> rfl
            · exact lacking_cons_of_new hnew _ ids
          · have hlogged : registry.logged.lookup id (s, log) =
                (.ok m, (s₁, log ++ [(id, .ok m)])) := by
              simp only [logged, hlookup]
            obtain ⟨answer, s', asked, hanswer, hasked, hsettles⟩ :=
              ih (found.insert id m) s₁ (log ++ [(id, .ok m)])
            refine ⟨answer, s', (id, .ok m) :: asked, hanswer, ?_, ?_⟩
            · rw [hlogged]
              simpa using hasked
            · rw [lacking_cons_of_new hnew m]
              exact hsettles.cons fun hmem => hnew (OrderedMap.contains_eq_true_iff.mpr hmem)

/-- Whatever a registry answers, resolution asks it for each declared stack at most once, in the
order of declaration and up to the first failure. Without a failure the blueprint is resolved as it
is and the catalog holds what each lookup has found; the first failure is the error, and it bears
the names of the blueprint and of the stack that was looked up. -/
theorem resolveAll_logged (registry : StackRegistry σ) (b : Blueprint) (s : σ) :
    ∃ answer s' log,
      registry.resolveAll b s = (answer, s') ∧
      registry.logged.resolveAll b (s, []) = (answer, (s', log)) ∧
      (log.map Prod.fst).Nodup ∧
      ((∃ catalog, answer = .ok ⟨b, catalog⟩ ∧ log = granted catalog.entries ∧
          catalog.keys = b.stackIds.values.eraseDups) ∨
        ∃ found id failure rest, answer = .error (failure.told b.name id) ∧
          log = granted found ++ [(id, .error failure)] ∧
          b.stackIds.values.eraseDups = log.map Prod.fst ++ rest) := by
  obtain ⟨outcome, s', log, hanswer, hlogged, hsettles⟩ :=
    resolveIds_logged registry b.name b.stackIds.values ∅ s []
  have hnodup := nodup_eraseDups b.stackIds.values
  rw [lacking_empty] at hsettles
  refine ⟨outcome.map fun catalog => ⟨b, catalog⟩, s', log, ?_, ?_, ?_⟩
  · rw [resolveAll_eq, hanswer]
  · rw [resolveAll_eq, hlogged, List.nil_append]
  · cases outcome with
    | ok catalog =>
        obtain ⟨fresh, rfl, hids, hcatalog⟩ := hsettles
        rw [show fresh = catalog.entries from hcatalog.symm] at hids ⊢
        refine ⟨?_, .inl ⟨catalog, rfl, rfl, hids.symm⟩⟩
        rwa [keys_granted, ← hids]
    | error e =>
        obtain ⟨fresh, id, failure, rest, rfl, hids, rfl⟩ := hsettles
        have hkeys : b.stackIds.values.eraseDups =
            (granted fresh ++ [(id, Except.error failure)]).map Prod.fst ++ rest := by
          rw [hids, List.map_append, keys_granted, List.append_assoc]
          rfl
        refine ⟨?_, .inr ⟨fresh, id, failure, rest, rfl, rfl, hkeys⟩⟩
        exact (hkeys ▸ hnodup).sublist (List.sublist_append_left _ _)

end StackRegistry

end ClusterBlueprint
