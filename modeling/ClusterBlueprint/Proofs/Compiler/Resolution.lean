import ClusterBlueprint.Compiler.Resolution
import ClusterBlueprint.Proofs.OrderedMap
import ClusterBlueprint.Proofs.Result
import ClusterBlueprint.Proofs.StackId

namespace ClusterBlueprint

def Labelled (catalog : OrderedMap StackId StackMetadata) : Prop :=
  ∀ id m, catalog.get? id = some m → m.name = id.name ∧ m.version = id.version

theorem labelled_empty : Labelled ∅ :=
  fun _ _ h => nomatch h

theorem Labelled.insert {catalog : OrderedMap StackId StackMetadata} (h : Labelled catalog)
    {id : StackId} {m : StackMetadata} (hm : m.name = id.name ∧ m.version = id.version) :
    Labelled (catalog.insert id m) := by
  intro id' m' hid'
  rw [OrderedMap.get?_insert] at hid'
  by_cases hid : id' = id
  · rw [if_pos hid] at hid'
    cases hid'
    exact hid ▸ hm
  · rw [if_neg hid] at hid'
    exact h id' m' hid'

namespace StackRegistry

variable {ρ σ : Type}

/-- Whether a registry, in the states of a set that it does not leave, finds under an id only what
bears the name and version of the id. -/
structure Truthful (registry : StackRegistry σ) (states : σ → Prop) : Prop where
  stays : ∀ id s, states s → states (registry.lookup id s).2
  labels : ∀ id s m, states s → (registry.lookup id s).1 = .ok m →
    m.name = id.name ∧ m.version = id.version

theorem Truthful.within {registry : StackRegistry ρ} {states : ρ → Prop}
    (h : registry.Truthful states) :
    (registry.within Prod.fst fun a (t : ρ × σ) => (a, t.2)).Truthful fun t => states t.1 where
  stays := fun id t ht => h.stays id t.1 ht
  labels := fun id t m ht hm => h.labels id t.1 m ht hm

theorem resolveIds_cons (registry : StackRegistry σ) (blueprint : String) (id : StackId)
    (ids : List StackId) (found : OrderedMap StackId StackMetadata) (s : σ) :
    registry.resolveIds blueprint (id :: ids) found s =
      if found.contains id then registry.resolveIds blueprint ids found s
      else
        match registry.lookup id s with
        | (.ok m, s) => registry.resolveIds blueprint ids (found.insert id m) s
        | (.error (.notFound _), s) => (.error (.stackNotFound blueprint id), s)
        | (.error (.failed fault), s) => (.error (.stackUnresolved blueprint id fault), s) := by
  rw [resolveIds]
  by_cases hfound : found.contains id = true
  · rw [if_pos hfound, if_pos hfound]
  · rw [if_neg hfound, if_neg hfound]
    simp only [resolveFor, bind, StateT.bind]
    rcases registry.lookup id s with ⟨_ | _, s'⟩
    next e => cases e <;> rfl
    next m => rfl

/-- Every id that is looked up without failure is in the catalog, and nothing else is added to it.
-/
theorem resolveIds_eq_ok {registry : StackRegistry σ} {states : σ → Prop}
    (hregistry : registry.Truthful states) {blueprint : String} {ids : List StackId}
    {found catalog : OrderedMap StackId StackMetadata} {s s' : σ} (hs : states s)
    (hfound : Labelled found)
    (h : registry.resolveIds blueprint ids found s = (.ok catalog, s')) :
    Labelled catalog ∧ ∀ id, id ∈ catalog.keys ↔ id ∈ ids ∨ id ∈ found.keys := by
  -- The catalog so far and the state are both kept general: a lookup may change either.
  induction ids generalizing found s with
  | nil =>
      cases h
      exact ⟨hfound, fun id => by simp⟩
  | cons id ids ih =>
      rw [resolveIds_cons] at h
      by_cases hcontains : found.contains id = true
      · rw [if_pos hcontains] at h
        obtain ⟨hlabelled, hkeys⟩ := ih hs hfound h
        rw [OrderedMap.contains_eq_true_iff] at hcontains
        refine ⟨hlabelled, fun id' => ?_⟩
        rw [hkeys, List.mem_cons]
        constructor
        · rintro (hmem | hmem)
          · exact .inl (.inr hmem)
          · exact .inr hmem
        · rintro ((rfl | hmem) | hmem)
          · exact .inr hcontains
          · exact .inl hmem
          · exact .inr hmem
      · rw [if_neg hcontains] at h
        rcases hlookup : registry.lookup id s with ⟨e | m, s₁⟩
        · rw [hlookup] at h
          cases e <;> nomatch h
        · rw [hlookup] at h
          have hstays := hregistry.stays id s hs
          have hlabels := hregistry.labels id s m hs
          rw [hlookup] at hstays hlabels
          obtain ⟨hlabelled, hkeys⟩ := ih hstays (hfound.insert (hlabels rfl)) h
          have hnew : id ∉ found.keys := fun hmem =>
            hcontains (OrderedMap.contains_eq_true_iff.mpr hmem)
          refine ⟨hlabelled, fun id' => ?_⟩
          rw [hkeys, OrderedMap.keys_insert, if_neg hnew, List.mem_append, List.mem_singleton,
            List.mem_cons, or_comm (a := id' ∈ found.keys), ← or_assoc, or_comm (a := id' ∈ ids)]

theorem resolveAll_eq (registry : StackRegistry σ) (b : Blueprint) (s : σ) :
    registry.resolveAll b s =
      ((registry.resolveIds b.name b.stackIds.values ∅ s).1.map fun catalog => ⟨b, catalog⟩,
        (registry.resolveIds b.name b.stackIds.values ∅ s).2) := by
  simp only [resolveAll, bind, StateT.bind]
  rcases registry.resolveIds b.name b.stackIds.values ∅ s with ⟨_ | _, s'⟩ <;> rfl

theorem blueprint_of_resolveAll {registry : StackRegistry σ} {b : Blueprint}
    {r : ResolvedBlueprint} {s s' : σ} (h : registry.resolveAll b s = (.ok r, s')) :
    r.blueprint = b := by
  rw [resolveAll_eq] at h
  obtain ⟨catalog, -, rfl⟩ := Result.map_eq_ok (Prod.mk.inj h).1
  rfl

theorem resolveAll_eq_ok {registry : StackRegistry σ} {states : σ → Prop}
    (hregistry : registry.Truthful states) {b : Blueprint} {r : ResolvedBlueprint} {s s' : σ}
    (hs : states s) (h : registry.resolveAll b s = (.ok r, s')) :
    r.blueprint = b ∧ Labelled r.catalog ∧ ∀ id, id ∈ r.catalog.keys ↔ id ∈ b.stackIds.values := by
  rw [resolveAll_eq] at h
  obtain ⟨hanswer, -⟩ := Prod.mk.inj h
  obtain ⟨catalog, hcatalog, rfl⟩ := Result.map_eq_ok hanswer
  obtain ⟨hlabelled, hkeys⟩ :=
    resolveIds_eq_ok hregistry hs labelled_empty (Prod.ext hcatalog rfl)
  refine ⟨rfl, hlabelled, fun id => ?_⟩
  rw [hkeys]
  exact or_iff_left List.not_mem_nil

def Unchanging (registry : StackRegistry ρ) (known : ρ) : Prop :=
  ∀ id, (registry.lookup id known).2 = known

theorem Unchanging.lookup_eq {registry : StackRegistry ρ} {known : ρ}
    (h : registry.Unchanging known) (id : StackId) :
    registry.lookup id known = ((registry.lookup id known).1, known) :=
  Prod.ext rfl (h id)

theorem Unchanging.within {registry : StackRegistry ρ} {known : ρ} (h : registry.Unchanging known)
    (s : σ) :
    (registry.within Prod.fst fun a (t : ρ × σ) => (a, t.2)).Unchanging (known, s) :=
  fun id => congrArg (·, s) (h id)

theorem Unchanging.resolveIds {registry : StackRegistry ρ} {known : ρ}
    (h : registry.Unchanging known) (blueprint : String) (ids : List StackId)
    (found : OrderedMap StackId StackMetadata) :
    (registry.resolveIds blueprint ids found known).2 = known := by
  induction ids generalizing found with
  | nil => rfl
  | cons id ids ih =>
      rw [resolveIds_cons, h.lookup_eq]
      split
      · exact ih found
      · rcases (registry.lookup id known).1 with e | m
        · cases e <;> rfl
        · exact ih _

theorem Unchanging.resolveAll {registry : StackRegistry ρ} {known : ρ}
    (h : registry.Unchanging known) (b : Blueprint) : (registry.resolveAll b known).2 = known := by
  rw [resolveAll_eq, h.resolveIds]

/-- Whether a registry, in the states of a set that it does not leave, answers by a function of the
id that is looked up. -/
structure AnswersBy (registry : StackRegistry σ) (states : σ → Prop)
    (answer : StackId → Except LookupError StackMetadata) : Prop where
  stays : ∀ id s, states s → states (registry.lookup id s).2
  answers : ∀ id s, states s → (registry.lookup id s).1 = answer id

theorem Unchanging.answersBy {registry : StackRegistry ρ} {known : ρ}
    (h : registry.Unchanging known) :
    registry.AnswersBy (· = known) fun id => (registry.lookup id known).1 where
  stays := by
    rintro id s rfl
    exact h id
  answers := by
    rintro id s rfl
    rfl

theorem AnswersBy.within {registry : StackRegistry ρ} {states : ρ → Prop}
    {answer : StackId → Except LookupError StackMetadata} (h : registry.AnswersBy states answer) :
    (registry.within Prod.fst fun a (t : ρ × σ) => (a, t.2)).AnswersBy (fun t => states t.1)
      answer where
  stays := fun id t ht => h.stays id t.1 ht
  answers := fun id t ht => h.answers id t.1 ht

/-- Two registries that answer by functions of the id resolve alike what both answer alike. -/
theorem AnswersBy.resolveIds_eq {registry : StackRegistry ρ} {registry' : StackRegistry σ}
    {states : ρ → Prop} {states' : σ → Prop}
    {answer answer' : StackId → Except LookupError StackMetadata}
    (h : registry.AnswersBy states answer) (h' : registry'.AnswersBy states' answer')
    (blueprint : String) {ids : List StackId} (hids : ∀ id ∈ ids, answer id = answer' id)
    (found : OrderedMap StackId StackMetadata) {s : ρ} {s' : σ} (hs : states s)
    (hs' : states' s') :
    (registry.resolveIds blueprint ids found s).1 =
      (registry'.resolveIds blueprint ids found s').1 := by
  -- The states go their own ways, each in its set; only the answers are alike.
  induction ids generalizing found s s' with
  | nil => rfl
  | cons id ids ih =>
      rw [List.forall_mem_cons] at hids
      have hsame : (registry.lookup id s).1 = (registry'.lookup id s').1 := by
        rw [h.answers id s hs, h'.answers id s' hs', hids.1]
      have hstays := h.stays id s hs
      have hstays' := h'.stays id s' hs'
      rw [resolveIds_cons, resolveIds_cons]
      split
      · exact ih hids.2 found hs hs'
      · generalize registry.lookup id s = looked at hsame hstays ⊢
        generalize registry'.lookup id s' = looked' at hsame hstays' ⊢
        obtain ⟨answered, s₁⟩ := looked
        obtain ⟨_, s₁'⟩ := looked'
        cases hsame
        cases answered with
        | error e => cases e <;> rfl
        | ok m => exact ih hids.2 _ hstays hstays'

theorem resolveIds_congr {registry : StackRegistry ρ} {known : ρ} {registry' : StackRegistry σ}
    {known' : σ} (h : registry.Unchanging known) (h' : registry'.Unchanging known')
    (blueprint : String) {ids : List StackId}
    (hids : ∀ id ∈ ids, (registry.lookup id known).1 = (registry'.lookup id known').1)
    (found : OrderedMap StackId StackMetadata) :
    (registry.resolveIds blueprint ids found known).1 =
      (registry'.resolveIds blueprint ids found known').1 :=
  h.answersBy.resolveIds_eq h'.answersBy blueprint hids found rfl rfl

theorem resolveAll_fst_congr {registry : StackRegistry ρ} {known : ρ} {registry' : StackRegistry σ}
    {known' : σ} (h : registry.Unchanging known) (h' : registry'.Unchanging known') {b : Blueprint}
    (hids : ∀ id ∈ b.stackIds.values,
      (registry.lookup id known).1 = (registry'.lookup id known').1) :
    (registry.resolveAll b known).1 = (registry'.resolveAll b known').1 := by
  rw [resolveAll_eq, resolveAll_eq, resolveIds_congr h h' b.name hids ∅]

theorem resolveAll_within {registry : StackRegistry ρ} {known : ρ} (h : registry.Unchanging known)
    (b : Blueprint) (s : σ) :
    (registry.within Prod.fst fun a (t : ρ × σ) => (a, t.2)).resolveAll b (known, s) =
      ((registry.resolveAll b known).1, (known, s)) := by
  apply Prod.ext
  · exact resolveAll_fst_congr (h.within s) h fun _ _ => rfl
  · exact (h.within s).resolveAll b

/-- A blueprint is resolved like another one that has the same name and declares the same stacks. -/
theorem resolveAll_of_same (registry : StackRegistry σ) {b b' : Blueprint}
    (hname : b'.name = b.name) (hstackIds : b'.stackIds = b.stackIds) (s : σ) :
    registry.resolveAll b' s =
      ((registry.resolveAll b s).1.map fun r => ⟨b', r.catalog⟩, (registry.resolveAll b s).2) := by
  rw [resolveAll_eq, resolveAll_eq, hname, hstackIds]
  cases (registry.resolveIds b.name b.stackIds.values ∅ s).1 <;> rfl

theorem resolveAll_congr {registry : StackRegistry σ} {b b' : Blueprint} {r : ResolvedBlueprint}
    {s : σ} (h : (registry.resolveAll b s).1 = .ok r) (hname : b'.name = b.name)
    (hstackIds : b'.stackIds = b.stackIds) :
    r.blueprint = b ∧ (registry.resolveAll b' s).1 = .ok ⟨b', r.catalog⟩ := by
  refine ⟨blueprint_of_resolveAll (Prod.ext h rfl), ?_⟩
  rw [resolveAll_of_same registry hname hstackIds, h]
  rfl

end StackRegistry

namespace StackShelf

/-- The stacks in memory after a list of descriptions has been added; those without a proper id are
not taken. -/
def ofDescriptions (descriptions : List StackMetadata) : StackShelf :=
  descriptions.foldl (fun shelf m => ((add shelf m).toOption).getD shelf) ∅

theorem labelled_ofDescriptions (descriptions : List StackMetadata) :
    Labelled (ofDescriptions descriptions) := by
  apply List.foldlRecOn (motive := Labelled) descriptions _ labelled_empty
  intro shelf hshelf m _
  rw [add, StackMetadata.id]
  cases hid : StackId.make m.name m.version with
  | error e => exact hshelf
  | ok id =>
      obtain ⟨hname, hversion⟩ := StackId.make_eq_ok hid
      exact hshelf.insert ⟨hname.symm, hversion.symm⟩

theorem truthful_registry : registry.Truthful Labelled where
  stays := fun _ _ h => h
  labels := by
    intro id shelf m hshelf hm
    change find shelf id = .ok m at hm
    rw [find] at hm
    cases hfound : OrderedMap.get? shelf id with
    | none =>
        rw [hfound] at hm
        nomatch hm
    | some m' =>
        rw [hfound] at hm
        cases hm
        exact hshelf id m hfound

end StackShelf

namespace StackFiles

theorem truthful_registry (root : Files.Path) : (registry root).Truthful fun _ => True where
  stays := fun _ _ h => h
  labels := by
    intro id tree m _ hm
    simp only [registry] at hm
    delta find at hm
    cases hread : tree.read (definitionPath root id) with
    | error failure =>
        simp only [hread] at hm
        cases failure <;> nomatch hm
    | ok content =>
        cases hparse : StackMetadata.decoder.parse content with
        | error e =>
            simp only [hread, hparse] at hm
            nomatch hm
        | ok m' =>
            simp only [hread, hparse] at hm
            by_cases hsame : m'.name = id.name ∧ m'.version = id.version
            · rw [if_pos hsame] at hm
              cases hm
              exact hsame
            · rw [if_neg hsame] at hm
              nomatch hm

end StackFiles

/-- The registries that are given, with the states that they may have: stacks in memory, after any
descriptions have been added, and the stack definitions in any file tree. -/
inductive StackRegistry.Given : {ρ : Type} → StackRegistry ρ → ρ → Prop
  | shelf (descriptions : List StackMetadata) :
      Given StackShelf.registry (StackShelf.ofDescriptions descriptions)
  | files (root : Files.Path) (tree : Files.Tree) : Given (StackFiles.registry root) tree

theorem StackRegistry.Given.truthful {ρ : Type} {registry : StackRegistry ρ} {known : ρ}
    (h : registry.Given known) : ∃ states, states known ∧ registry.Truthful states := by
  cases h with
  | shelf descriptions =>
      exact ⟨Labelled, StackShelf.labelled_ofDescriptions descriptions,
        StackShelf.truthful_registry⟩
  | files root => exact ⟨fun _ => True, trivial, StackFiles.truthful_registry root⟩

theorem StackRegistry.Given.unchanging {ρ : Type} {registry : StackRegistry ρ} {known : ρ}
    (h : registry.Given known) : registry.Unchanging known := by
  cases h with
  | shelf descriptions => exact fun _ => rfl
  | files root tree => exact fun _ => rfl

end ClusterBlueprint
