import ClusterBlueprint.Proofs.OrderedMap

/-!
Laying one ordered map over another. Where both have a value, the two are combined; every other
value stays as it is. The keys of the base keep their places and the new ones follow in their own
order (`keys_overlay`). Each law of how values are combined becomes a law of how maps are laid over
one another, so that the laws climb from the innermost values of a map of maps to the whole. An
update of the upper map may as well be made afterwards (`overlay_alter`).
-/

namespace ClusterBlueprint

universe u v w

/-- A list with what is new in another one after it. -/
def extended {κ : Type u} [DecidableEq κ] (base upper : List κ) : List κ :=
  base ++ upper.filter (· ∉ base)

section Extended

variable {κ : Type u} [DecidableEq κ]

@[simp]
theorem mem_extended {base upper : List κ} {key : κ} :
    key ∈ extended base upper ↔ key ∈ base ∨ key ∈ upper := by
  by_cases hkey : key ∈ base <;> simp [extended, hkey]

theorem extended_assoc (a b c : List κ) :
    extended (extended a b) c = extended a (extended b c) := by
  have hfilter : c.filter (· ∉ extended a b) = (c.filter (· ∉ b)).filter (· ∉ a) := by
    rw [List.filter_filter]
    apply List.filter_congr
    intro key _
    rw [Bool.eq_iff_iff, Bool.and_eq_true]
    simp only [decide_eq_true_eq, mem_extended, not_or]
  rw [extended, hfilter]
  simp only [extended, List.filter_append, List.append_assoc]

theorem nil_extended (a : List κ) : extended [] a = a := by
  rw [extended, List.nil_append, List.filter_eq_self.mpr (by simp)]

theorem extended_self (a : List κ) : extended a a = a := by
  rw [extended, List.filter_eq_nil_iff.mpr (by simp), List.append_nil]

end Extended

namespace OrderedMap

variable {κ : Type u} {α : Type v} {β : Type w} [DecidableEq κ]

/-- A map is the order of its keys and what can be looked up in it. -/
theorem ext_get? {m n : OrderedMap κ α} (hkeys : m.keys = n.keys) (hget : m.get? = n.get?) :
    m = n := by
  apply ext_entries
  have hm := m.map_entries_eq_filterMap_keys id
  have hn := n.map_entries_eq_filterMap_keys id
  rw [List.map_id] at hm hn
  rw [hm, hn, hkeys, hget]

theorem get?_foldl_alter (f : β → Option α → α) {entries : List (κ × β)}
    (hkeys : (entries.map Prod.fst).Nodup) (m : OrderedMap κ α) (key : κ) :
    (entries.foldl (fun m entry => m.alter entry.1 (f entry.2)) m).get? key =
      ((lookupEntry key entries).map fun b => f b (m.get? key)).or (m.get? key) := by
  induction entries generalizing m with
  | nil => rfl
  | cons entry rest ih =>
      obtain ⟨k, b⟩ := entry
      rw [List.map_cons, List.nodup_cons] at hkeys
      rw [List.foldl_cons, ih hkeys.2, get?_alter, lookupEntry]
      by_cases hk : key = k
      · subst hk
        rw [lookupEntry_eq_none_iff.mpr hkeys.1, if_pos rfl, if_pos rfl]
        rfl
      · rw [if_neg hk, if_neg fun h => hk h.symm]

theorem keys_foldl_alter (f : β → Option α → α) {entries : List (κ × β)}
    (hkeys : (entries.map Prod.fst).Nodup) (m : OrderedMap κ α) :
    (entries.foldl (fun m entry => m.alter entry.1 (f entry.2)) m).keys =
      extended m.keys (entries.map Prod.fst) := by
  induction entries generalizing m with
  | nil => simp [extended]
  | cons entry rest ih =>
      obtain ⟨k, b⟩ := entry
      rw [List.map_cons, List.nodup_cons] at hkeys
      rw [List.foldl_cons, ih hkeys.2, keys_alter, List.map_cons]
      by_cases hk : k ∈ m.keys
      · simp [extended, hk]
      · have hrest : (rest.map Prod.fst).filter (· ∉ m.keys ++ [k]) =
            (rest.map Prod.fst).filter (· ∉ m.keys) := by
          apply List.filter_congr
          rintro key hkey
          have hne : key ≠ k := fun h => hkeys.1 (h ▸ hkey)
          simp [hne]
        rw [if_neg hk, extended, hrest]
        simp [extended, hk]

def overlay (combine : α → α → α) (base upper : OrderedMap κ α) : OrderedMap κ α :=
  upper.entries.foldl
    (fun m entry => m.alter entry.1 fun old => old.elim entry.2 (combine · entry.2)) base

variable {combine : α → α → α}

@[simp]
theorem get?_overlay (base upper : OrderedMap κ α) (key : κ) :
    (overlay combine base upper).get? key =
      Option.merge combine (base.get? key) (upper.get? key) := by
  apply (get?_foldl_alter (fun b old => Option.elim old b (combine · b)) upper.distinct base
    key).trans
  rw [← get?]
  cases base.get? key <;> cases upper.get? key <;> rfl

@[simp]
theorem keys_overlay (base upper : OrderedMap κ α) :
    (overlay combine base upper).keys = extended base.keys upper.keys :=
  keys_foldl_alter (fun b old => Option.elim old b (combine · b)) upper.distinct base

/-- Values that are put in one by one, each with what stood under its key, are laid over. -/
theorem foldl_alter_eq_overlay {f : α → Option α → α}
    (hf : ∀ a old, f a old = old.elim a (combine · a)) (base upper : OrderedMap κ α) :
    upper.entries.foldl (fun m entry => m.alter entry.1 (f entry.2)) base =
      overlay combine base upper := by
  obtain rfl : f = fun a old => old.elim a (combine · a) := funext fun a => funext (hf a)
  rfl

instance [Std.Associative combine] :
    Std.Associative (overlay combine : OrderedMap κ α → OrderedMap κ α → OrderedMap κ α) where
  assoc a b c := by
    apply ext_get?
    · simp only [keys_overlay, extended_assoc]
    · funext key
      simp only [get?_overlay]
      exact Std.Associative.assoc _ _ _

instance [Std.IdempotentOp combine] :
    Std.IdempotentOp (overlay combine : OrderedMap κ α → OrderedMap κ α → OrderedMap κ α) where
  idempotent a := by
    apply ext_get?
    · rw [keys_overlay, extended_self]
    · funext key
      rw [get?_overlay]
      exact Std.IdempotentOp.idempotent _

instance : Std.LawfulIdentity (overlay combine) (∅ : OrderedMap κ α) where
  left_id a := by
    apply ext_get?
    · exact (keys_overlay ∅ a).trans (nil_extended a.keys)
    · funext key
      rw [get?_overlay, get?_empty, Option.merge_none_left]
  right_id a := rfl

/-- What stands under a key, with the empty map where nothing does, is laid over like the maps that
it stands in. -/
theorem getD_get?_overlay {ι : Type*} [DecidableEq ι]
    (base upper : OrderedMap κ (OrderedMap ι α)) (key : κ) :
    ((overlay (overlay combine) base upper).get? key).getD ∅ =
      overlay combine ((base.get? key).getD ∅) ((upper.get? key).getD ∅) := by
  rw [get?_overlay]
  cases base.get? key with
  | none =>
      rw [Option.merge_none_left]
      exact (Std.LawfulLeftIdentity.left_id _).symm
  | some a => cases upper.get? key <;> rfl

/-- If the upper one decides what is seen of two values together, then it decides what is seen under
a key of two maps together. -/
theorem bind_get?_overlay {γ : Type*} {view : α → Option γ}
    (hview : ∀ a b, view (combine a b) = (view b).or (view a)) (base upper : OrderedMap κ α)
    (key : κ) :
    ((overlay combine base upper).get? key).bind view =
      ((upper.get? key).bind view).or ((base.get? key).bind view) := by
  rw [get?_overlay]
  cases base.get? key <;> cases upper.get? key <;> simp [hview]

theorem AllValues.overlay {p : α → Prop} (hcombine : ∀ a b, p a → p b → p (combine a b))
    {base upper : OrderedMap κ α} (hbase : base.AllValues p) (hupper : upper.AllValues p) :
    (overlay combine base upper).AllValues p := by
  intro key c hc
  rw [get?_overlay] at hc
  cases ha : base.get? key with
  | none =>
      rw [ha, Option.merge_none_left] at hc
      exact hupper key c hc
  | some a =>
      cases hb : upper.get? key with
      | none =>
          rw [ha, hb] at hc
          cases hc
          exact hbase key c ha
      | some b =>
          rw [ha, hb] at hc
          cases hc
          exact hcombine a b (hbase key a ha) (hupper key b hb)

/-- What is laid over does not depend on more than a relation that the values keep. -/
theorem Related.overlay {β : Type*} {r : α → β → Prop} {combine' : β → β → β}
    (hcombine : ∀ a a' b b', r a b → r a' b' → r (combine a a') (combine' b b'))
    {base upper : OrderedMap κ α} {base' upper' : OrderedMap κ β} (hbase : Related r base base')
    (hupper : Related r upper upper') :
    Related r (overlay combine base upper) (overlay combine' base' upper') := by
  intro key
  rw [get?_overlay, get?_overlay]
  rcases hbase.found_or_absent key with ⟨a, b, ha, hb, hab⟩ | ⟨ha, hb⟩
  · rcases hupper.found_or_absent key with ⟨a', b', ha', hb', hab'⟩ | ⟨ha', hb'⟩
    · rw [ha, hb, ha', hb']
      exact .some (hcombine a a' b b' hab hab')
    · rw [ha, hb, ha', hb']
      exact .some hab
  · rw [ha, hb, Option.merge_none_left, Option.merge_none_left]
    exact hupper key

theorem overlay_ne_empty {base upper : OrderedMap κ α} (h : upper ≠ ∅) :
    overlay combine base upper ≠ ∅ := by
  obtain ⟨key, a, ha⟩ := exists_get?_of_ne_empty h
  have hmem : key ∈ (overlay combine base upper).keys := by
    rw [keys_overlay, mem_extended]
    exact .inr (mem_keys_iff.mpr ⟨a, ha⟩)
  obtain ⟨b, hb⟩ := mem_keys_iff.mp hmem
  exact ne_empty_of_get? hb

/-- Whether an update of a value may as well be made after the value has been combined with a
base. -/
def Passes (combine : α → α → α) (f : Option α → α) : Prop :=
  ∀ base upper : Option α,
    Option.merge combine base (some (f upper)) = some (f (Option.merge combine base upper))

theorem overlay_alter {f : Option α → α} (hf : Passes combine f) (base upper : OrderedMap κ α)
    (key : κ) :
    overlay combine base (upper.alter key f) = (overlay combine base upper).alter key f := by
  apply ext_get?
  · rw [keys_overlay, keys_alter, keys_alter, keys_overlay]
    by_cases hupper : key ∈ upper.keys
    · simp [hupper]
    · by_cases hbase : key ∈ base.keys <;> simp [hupper, hbase, extended, List.filter_append]
  · funext key'
    rw [get?_overlay, get?_alter, get?_alter]
    by_cases hkey : key' = key
    · rw [hkey, if_pos rfl, if_pos rfl, get?_overlay]
      exact hf _ _
    · rw [if_neg hkey, if_neg hkey, get?_overlay]

theorem passes_getD : Passes (overlay combine) fun old : Option (OrderedMap κ α) => old.getD ∅ := by
  rintro (_ | base) (_ | upper) <;> rfl

theorem Passes.alter {f : Option α → α} (hf : Passes combine f) (key : κ) :
    Passes (overlay combine) fun old : Option (OrderedMap κ α) => (old.getD ∅).alter key f := by
  rintro (_ | base) upper
  · rw [Option.merge_none_left, Option.merge_none_left]
  · rw [Option.merge_some_some, overlay_alter hf]
    cases upper <;> rfl

def latest (_ upper : α) : α :=
  upper

instance : Std.Associative (latest : α → α → α) where
  assoc _ _ _ := rfl

instance : Std.IdempotentOp (latest : α → α → α) where
  idempotent _ := rfl

theorem get?_overlay_latest (base upper : OrderedMap κ α) (key : κ) :
    (overlay latest base upper).get? key = (upper.get? key).or (base.get? key) := by
  rw [get?_overlay]
  cases base.get? key <;> cases upper.get? key <;> rfl

theorem passes_latest (a : α) : Passes latest fun _ => a := by
  rintro (_ | base) upper <;> rfl

theorem insertAll_eq_overlay (base upper : OrderedMap κ α) :
    base.insertAll upper.entries = overlay latest base upper :=
  foldl_alter_eq_overlay (f := fun a _ => a) (fun _ old => by cases old <;> rfl) base upper

end OrderedMap

end ClusterBlueprint
