import ClusterBlueprint.OrderedMap
import Mathlib.Data.List.Forall2
import Mathlib.Data.List.Perm.Subperm

namespace ClusterBlueprint.OrderedMap

universe u v w

variable {κ : Type u} {α : Type v} {β : Type w}

theorem ext_entries {m n : OrderedMap κ α} (h : m.entries = n.entries) : m = n := by
  cases m
  cases n
  congr

theorem isEmpty_eq_true_iff {m : OrderedMap κ α} : m.isEmpty = true ↔ m = ∅ := by
  constructor
  · intro h
    exact ext_entries (List.isEmpty_iff.mp h)
  · rintro rfl
    rfl

theorem isEmpty_values (m : OrderedMap κ α) : m.values.isEmpty = m.isEmpty := by
  rw [values, List.isEmpty_map]
  rfl

variable [DecidableEq κ]

theorem lookupEntry_eq_none_iff {key : κ} {entries : List (κ × α)} :
    lookupEntry key entries = none ↔ key ∉ entries.map Prod.fst := by
  induction entries with
  | nil => simp [lookupEntry]
  | cons entry rest ih =>
      obtain ⟨k, a⟩ := entry
      by_cases hk : k = key
      · simp [lookupEntry, hk]
      · have hne : ¬ key = k := fun h => hk h.symm
        simp only [lookupEntry, hk, if_false, ih, List.map_cons, List.mem_cons, hne, false_or]

theorem mem_of_lookupEntry {key : κ} {a : α} {entries : List (κ × α)}
    (h : lookupEntry key entries = some a) : (key, a) ∈ entries := by
  induction entries with
  | nil => simp [lookupEntry] at h
  | cons entry rest ih =>
      obtain ⟨k, b⟩ := entry
      by_cases hk : k = key
      · simp only [lookupEntry, hk, if_true, Option.some.injEq] at h
        simp [hk, h]
      · simp only [lookupEntry, hk, if_false] at h
        exact List.mem_cons_of_mem _ (ih h)

theorem lookupEntry_of_mem {key : κ} {a : α} {entries : List (κ × α)}
    (hkeys : (entries.map Prod.fst).Nodup) (h : (key, a) ∈ entries) :
    lookupEntry key entries = some a := by
  induction entries with
  | nil => simp at h
  | cons entry rest ih =>
      obtain ⟨k, b⟩ := entry
      rw [List.map_cons, List.nodup_cons] at hkeys
      rcases List.mem_cons.mp h with heq | hrest
      · cases heq
        simp [lookupEntry]
      · have hmem : key ∈ rest.map Prod.fst := List.mem_map.mpr ⟨(key, a), hrest, rfl⟩
        have hk : k ≠ key := by
          rintro rfl
          exact hkeys.1 hmem
        simp only [lookupEntry, hk, if_false, ih hkeys.2 hrest]

theorem lookupEntry_of_forall₂ {r : α → β → Prop} {entries : List (κ × α)}
    {entries' : List (κ × β)}
    (h : List.Forall₂ (fun e e' => e.1 = e'.1 ∧ r e.2 e'.2) entries entries') (key : κ) :
    Option.Rel r (lookupEntry key entries) (lookupEntry key entries') := by
  induction h with
  | nil => exact .none
  | @cons e e' _ _ he _ ih =>
      obtain ⟨hkey, hvalue⟩ := he
      rw [lookupEntry, lookupEntry, hkey]
      by_cases hk : e'.1 = key
      · rw [if_pos hk, if_pos hk]
        exact .some hvalue
      · rw [if_neg hk, if_neg hk]
        exact ih

theorem get?_eq_none_iff {m : OrderedMap κ α} {key : κ} : m.get? key = none ↔ key ∉ m.keys :=
  lookupEntry_eq_none_iff

theorem get?_eq_some_iff {m : OrderedMap κ α} {key : κ} {a : α} :
    m.get? key = some a ↔ (key, a) ∈ m.entries :=
  ⟨mem_of_lookupEntry, lookupEntry_of_mem m.distinct⟩

theorem mem_keys_iff {m : OrderedMap κ α} {key : κ} : key ∈ m.keys ↔ ∃ a, m.get? key = some a := by
  rw [← Option.ne_none_iff_exists', ne_eq, get?_eq_none_iff, not_not]

theorem contains_eq_true_iff {m : OrderedMap κ α} {key : κ} :
    m.contains key = true ↔ key ∈ m.keys := by
  rw [contains, Option.isSome_iff_exists, mem_keys_iff]

theorem map_entries_eq_filterMap_keys {γ : Type*} (m : OrderedMap κ α) (f : κ × α → γ) :
    m.entries.map f = m.keys.filterMap fun key => (m.get? key).map fun a => f (key, a) := by
  rw [keys, List.filterMap_map, ← List.filterMap_eq_map]
  apply List.filterMap_congr
  rintro ⟨key, a⟩ hentry
  rw [Function.comp_apply, Function.comp_apply, get?_eq_some_iff.mpr hentry, Option.map_some]

/-- What is found under the keys of two maps is related key by key. -/
def Related (r : α → β → Prop) (m : OrderedMap κ α) (n : OrderedMap κ β) : Prop :=
  ∀ key, Option.Rel r (m.get? key) (n.get? key)

theorem Related.found_or_absent {r : α → β → Prop} {m : OrderedMap κ α} {n : OrderedMap κ β}
    (h : Related r m n) (key : κ) :
    (∃ a b, m.get? key = some a ∧ n.get? key = some b ∧ r a b) ∨
      (m.get? key = none ∧ n.get? key = none) := by
  have hrel := h key
  generalize m.get? key = x, n.get? key = y at hrel ⊢
  cases hrel with
  | some hr => exact .inl ⟨_, _, rfl, rfl, hr⟩
  | none => exact .inr ⟨rfl, rfl⟩

theorem Related.found {r : α → β → Prop} {m : OrderedMap κ α} {n : OrderedMap κ β}
    (h : Related r m n) {key : κ} {a : α} (ha : m.get? key = some a) :
    ∃ b, n.get? key = some b ∧ r a b := by
  rcases h.found_or_absent key with ⟨a', b, ha', hb, hr⟩ | ⟨hnone, -⟩
  · rw [ha] at ha'
    cases ha'
    exact ⟨b, hb, hr⟩
  · rw [ha] at hnone
    nomatch hnone

theorem Related.keys_subset {r : α → β → Prop} {m : OrderedMap κ α} {n : OrderedMap κ β}
    (h : Related r m n) : m.keys ⊆ n.keys := by
  intro key hkey
  obtain ⟨a, ha⟩ := mem_keys_iff.mp hkey
  obtain ⟨b, hb, -⟩ := h.found ha
  exact mem_keys_iff.mpr ⟨b, hb⟩

theorem Related.imp {r s : α → β → Prop} (hrs : ∀ a b, r a b → s a b) {m : OrderedMap κ α}
    {n : OrderedMap κ β} (h : Related r m n) : Related s m n := by
  intro key
  rcases h.found_or_absent key with ⟨a, b, ha, hb, hr⟩ | ⟨ha, hb⟩
  · rw [ha, hb]
    exact .some (hrs a b hr)
  · rw [ha, hb]
    exact .none

theorem Related.symm {r : α → β → Prop} {m : OrderedMap κ α} {n : OrderedMap κ β}
    (h : Related r m n) : Related (fun b a => r a b) n m := by
  intro key
  rcases h.found_or_absent key with ⟨a, b, ha, hb, hr⟩ | ⟨ha, hb⟩
  · rw [ha, hb]
    exact .some hr
  · rw [ha, hb]
    exact .none

theorem Related.eq_empty {r : α → β → Prop} {m : OrderedMap κ α} {n : OrderedMap κ β}
    (h : Related r m n) (hm : m = ∅) : n = ∅ := by
  subst hm
  have hkeys : n.keys = [] := List.subset_nil.mp h.symm.keys_subset
  exact ext_entries (List.map_eq_nil_iff.mp hkeys)

theorem Related.isEmpty {r : α → β → Prop} {m : OrderedMap κ α} {n : OrderedMap κ β}
    (h : Related r m n) : m.isEmpty = n.isEmpty := by
  rw [Bool.eq_iff_iff, isEmpty_eq_true_iff, isEmpty_eq_true_iff]
  exact ⟨h.eq_empty, h.symm.eq_empty⟩

theorem related_eq_iff {m n : OrderedMap κ α} : Related (· = ·) m n ↔ m.get? = n.get? := by
  constructor
  · intro h
    funext key
    rcases h.found_or_absent key with ⟨a, b, ha, hb, hab⟩ | ⟨ha, hb⟩
    · rw [ha, hb, hab]
    · rw [ha, hb]
  · intro h key
    rw [h]
    cases n.get? key with
    | none => exact .none
    | some a => exact .some rfl

theorem agrees_iff {same : α → α → Bool} {m n : OrderedMap κ α} :
    m.agrees same n = true ↔ Related (fun a b => same a b = true) m n := by
  have hlength (m : OrderedMap κ α) : m.entries.length = m.keys.length := by
    rw [keys, List.length_map]
  rw [agrees, Bool.and_eq_true, beq_iff_eq, List.all_eq_true, hlength, hlength]
  constructor
  · rintro ⟨hsize, hall⟩
    have hfound : ∀ key a, m.get? key = some a → ∃ b, n.get? key = some b ∧ same a b = true := by
      intro key a ha
      have hsame := hall (key, a) (get?_eq_some_iff.mp ha)
      cases hb : n.get? key with
      | none => simp [hb] at hsame
      | some b => exact ⟨b, rfl, by simpa [hb] using hsame⟩
    have hsub : m.keys ⊆ n.keys := by
      intro key hkey
      obtain ⟨a, ha⟩ := mem_keys_iff.mp hkey
      obtain ⟨b, hb, -⟩ := hfound key a ha
      exact mem_keys_iff.mpr ⟨b, hb⟩
    -- Both lists of keys are free of repetitions and of one length, so none is left over.
    have hperm : m.keys.Perm n.keys :=
      (m.distinct.subperm hsub).perm_of_length_le (Nat.le_of_eq hsize.symm)
    intro key
    cases ha : m.get? key with
    | some a =>
        obtain ⟨b, hb, hsame⟩ := hfound key a ha
        rw [hb]
        exact .some hsame
    | none =>
        rw [get?_eq_none_iff, hperm.mem_iff, ← get?_eq_none_iff] at ha
        rw [ha]
        exact .none
  · intro h
    constructor
    · exact Nat.le_antisymm (m.distinct.subperm h.keys_subset).length_le
        (n.distinct.subperm h.symm.keys_subset).length_le
    · rintro ⟨key, a⟩ hmem
      obtain ⟨b, hb, hsame⟩ := h.found (get?_eq_some_iff.mpr hmem)
      simpa only [hb] using hsame

theorem agrees_beq_iff [DecidableEq α] {m n : OrderedMap κ α} :
    m.agrees (· == ·) n = true ↔ m.get? = n.get? := by
  rw [agrees_iff, ← related_eq_iff]
  simp only [beq_iff_eq]

theorem exists_get?_of_ne_empty {m : OrderedMap κ α} (h : m ≠ ∅) :
    ∃ key a, m.get? key = some a := by
  have hentries : m.entries ≠ [] := fun heq => h (ext_entries heq)
  obtain ⟨⟨key, a⟩, hmem⟩ := List.exists_mem_of_ne_nil _ hentries
  exact ⟨key, a, get?_eq_some_iff.mpr hmem⟩

theorem ne_empty_of_get? {m : OrderedMap κ α} {key : κ} {a : α} (h : m.get? key = some a) :
    m ≠ ∅ := by
  rintro rfl
  nomatch h

theorem eq_empty_iff {m : OrderedMap κ α} : m = ∅ ↔ ∀ key, m.get? key = none := by
  constructor
  · rintro rfl key
    rfl
  · intro h
    by_contra hne
    obtain ⟨key, a, ha⟩ := exists_get?_of_ne_empty hne
    exact Option.some_ne_none a (ha.symm.trans (h key))

theorem alter_ne_empty (m : OrderedMap κ α) (key : κ) (f : Option α → α) : m.alter key f ≠ ∅ :=
  ne_empty_of_get? ((get?_alter m key key f).trans (if_pos rfl))

theorem insertAll_ne_empty (m : OrderedMap κ α) {entries : List (κ × α)} (h : entries ≠ []) :
    m.insertAll entries ≠ ∅ := by
  induction entries generalizing m with
  | nil => exact absurd rfl h
  | cons entry rest ih =>
      cases rest with
      | nil => exact alter_ne_empty m entry.1 _
      | cons entry' rest => exact ih _ (List.cons_ne_nil _ _)

def AllValues (p : α → Prop) (m : OrderedMap κ α) : Prop :=
  ∀ key a, m.get? key = some a → p a

theorem allValues_empty (p : α → Prop) : AllValues p (∅ : OrderedMap κ α) :=
  fun _ _ h => nomatch h

theorem AllValues.alter {p : α → Prop} {m : OrderedMap κ α} (hm : AllValues p m) (key : κ)
    {f : Option α → α} (hf : ∀ old, (∀ a, old = some a → p a) → p (f old)) :
    AllValues p (m.alter key f) := by
  intro key' a ha
  rw [get?_alter] at ha
  by_cases hkey : key' = key
  · rw [if_pos hkey] at ha
    cases ha
    exact hf _ fun a ha => hm key a ha
  · rw [if_neg hkey] at ha
    exact hm key' a ha

theorem mem_keys_alter {m : OrderedMap κ α} {key : κ} {f : Option α → α} {key' : κ} :
    key' ∈ (m.alter key f).keys ↔ key' = key ∨ key' ∈ m.keys := by
  rw [keys_alter]
  split
  next hmem =>
    constructor
    · exact .inr
    · rintro (rfl | h)
      · exact hmem
      · exact h
  next hmem => rw [List.mem_append, List.mem_singleton, or_comm]

/-- If what can be seen of the values of two maps is the same under all keys, and something can be
seen of every value, then the keys are the same too. -/
theorem related_of_views {ι γ : Type*} {m : OrderedMap κ α} {n : OrderedMap κ β}
    (view : α → ι → Option γ) (view' : β → ι → Option γ)
    (hm : ∀ key a, m.get? key = some a → ∃ i c, view a i = some c)
    (hn : ∀ key b, n.get? key = some b → ∃ i c, view' b i = some c)
    (h : ∀ key i, ((m.get? key).bind fun a => view a i) = (n.get? key).bind fun b => view' b i) :
    Related (fun a b => view a = view' b) m n := by
  intro key
  have hkey := h key
  cases ha : m.get? key with
  | some a =>
      rw [ha] at hkey
      obtain ⟨i, c, hc⟩ := hm key a ha
      cases hb : n.get? key with
      | some b =>
          rw [hb] at hkey
          exact .some (funext hkey)
      | none =>
          have hi := hkey i
          rw [hb, Option.bind_some, hc] at hi
          nomatch hi
  | none =>
      rw [ha] at hkey
      cases hb : n.get? key with
      | some b =>
          obtain ⟨i, c, hc⟩ := hn key b hb
          have hi := hkey i
          rw [hb, Option.bind_some, hc] at hi
          nomatch hi
      | none => exact .none

/-- If every entry of a list changes what is seen under its own key only, then under each key is
seen what its entry shows, or else what was seen before. -/
theorem view_foldl {σ γ : Type*} (step : σ → κ × α → σ) (view : σ → κ → Option γ)
    (shown : α → Option γ)
    (hstep : ∀ s k a key,
      view (step s (k, a)) key = (if key = k then shown a else none).or (view s key))
    {entries : List (κ × α)} (hkeys : (entries.map Prod.fst).Nodup) (s : σ) (key : κ) :
    view (entries.foldl step s) key = ((lookupEntry key entries).bind shown).or (view s key) := by
  induction entries generalizing s with
  | nil => rfl
  | cons entry rest ih =>
      obtain ⟨k, a⟩ := entry
      rw [List.map_cons, List.nodup_cons] at hkeys
      rw [List.foldl_cons, ih hkeys.2, hstep, lookupEntry]
      by_cases hk : key = k
      · subst hk
        rw [lookupEntry_eq_none_iff.mpr hkeys.1, if_pos rfl, if_pos rfl]
        rfl
      · rw [if_neg hk, if_neg fun h => hk h.symm, Option.none_or]

theorem get?_insertAll {entries : List (κ × α)} (hkeys : (entries.map Prod.fst).Nodup)
    (m : OrderedMap κ α) (key : κ) :
    (m.insertAll entries).get? key = (lookupEntry key entries).or (m.get? key) := by
  have hstep : ∀ (m : OrderedMap κ α) k a key,
      (m.insert k a).get? key = (if key = k then some a else none).or (m.get? key) := by
    intro m k a key
    rw [get?_insert]
    by_cases hk : key = k
    · rw [if_pos hk, if_pos hk, Option.some_or]
    · rw [if_neg hk, if_neg hk, Option.none_or]
  apply Eq.trans (view_foldl (fun m entry => m.insert entry.1 entry.2) get? some hstep hkeys m key)
  rw [Option.bind_fun_some]

/-- The value under two keys of a map of maps. -/
def cell? {ι : Type*} [DecidableEq ι] (m : OrderedMap κ (OrderedMap ι α)) (key : κ) (key' : ι) :
    Option α :=
  (m.get? key).bind fun row => row.get? key'

/-- A map of maps that are not empty is empty if no value stands in it. -/
theorem eq_empty_iff_cell? {ι : Type*} [DecidableEq ι] {m : OrderedMap κ (OrderedMap ι α)}
    (h : m.AllValues (· ≠ ∅)) : m = ∅ ↔ ∀ key key', m.cell? key key' = none := by
  constructor
  · rintro rfl key key'
    rfl
  · intro hcells
    rw [eq_empty_iff]
    intro key
    by_contra hne
    obtain ⟨row, hrow⟩ := Option.ne_none_iff_exists'.mp hne
    obtain ⟨key', a, ha⟩ := exists_get?_of_ne_empty (h key row hrow)
    have hcell := hcells key key'
    rw [cell?, hrow, Option.bind_some, ha] at hcell
    nomatch hcell

theorem Related.cell? {ι : Type*} [DecidableEq ι] {m n : OrderedMap κ (OrderedMap ι α)}
    (h : Related (Related (· = ·)) m n) (key : κ) (key' : ι) :
    m.cell? key key' = n.cell? key key' := by
  rw [OrderedMap.cell?, OrderedMap.cell?]
  rcases h.found_or_absent key with ⟨a, b, ha, hb, hab⟩ | ⟨ha, hb⟩
  · rw [ha, hb, Option.bind_some, Option.bind_some, related_eq_iff.mp hab]
  · rw [ha, hb]

theorem cell?_alter_insert {ι : Type*} [DecidableEq ι] (m : OrderedMap κ (OrderedMap ι α))
    (k key : κ) (k' key' : ι) (a : α) :
    cell? (m.alter k fun old => (old.getD ∅).insert k' a) key key' =
      if key = k ∧ key' = k' then some a else m.cell? key key' := by
  rw [cell?, cell?, get?_alter]
  by_cases hk : key = k
  · subst hk
    simp only [if_true, Option.bind_some, get?_insert, true_and]
    cases m.get? key <;> rfl
  · rw [if_neg hk, if_neg fun h => hk h.1]

/-- A row is put, value by value, into the rows of a map of maps. -/
theorem cell?_foldl_insert {ι : Type*} [DecidableEq ι] {row : List (κ × α)}
    (hkeys : (row.map Prod.fst).Nodup) (m : OrderedMap κ (OrderedMap ι α)) (k' : ι) (key : κ)
    (key' : ι) :
    cell? (row.foldl (fun m entry => m.alter entry.1 fun old => (old.getD ∅).insert k' entry.2) m)
        key key' =
      (if key' = k' then lookupEntry key row else none).or (m.cell? key key') := by
  have hstep : ∀ (m : OrderedMap κ (OrderedMap ι α)) k a key,
      cell? (m.alter k fun old => (old.getD ∅).insert k' a) key key' =
        (if key = k then (if key' = k' then some a else none) else none).or (m.cell? key key') := by
    intro m k a key
    rw [cell?_alter_insert]
    by_cases hk : key = k <;> by_cases hk' : key' = k' <;> simp [hk, hk']
  refine (view_foldl (fun m entry => m.alter entry.1 fun old => (old.getD ∅).insert k' entry.2)
    (fun m key => m.cell? key key') (fun a => if key' = k' then some a else none) hstep hkeys m
    key).trans ?_
  by_cases hk' : key' = k'
  · simp only [hk', if_true, Option.bind_fun_some]
  · simp only [hk', if_false, Option.bind_fun_none]

theorem get?_ofList {entries : List (κ × α)} (hkeys : (entries.map Prod.fst).Nodup) (key : κ) :
    (ofList entries).get? key = lookupEntry key entries := by
  rw [ofList, get?_insertAll hkeys]
  exact Option.or_none

theorem entries_alter_of_not_mem {m : OrderedMap κ α} {key : κ} (h : key ∉ m.keys)
    (f : Option α → α) : (m.alter key f).entries = m.entries ++ [(key, f none)] := by
  obtain ⟨entries, distinct⟩ := m
  change key ∉ entries.map Prod.fst at h
  change alterEntry key f entries = entries ++ [(key, f none)]
  clear distinct
  induction entries with
  | nil => rfl
  | cons entry rest ih =>
      obtain ⟨k, a⟩ := entry
      rw [List.map_cons, List.mem_cons, not_or] at h
      have hne : ¬ k = key := fun heq => h.1 heq.symm
      rw [alterEntry, if_neg hne, ih h.2, List.cons_append]

theorem entries_insertAll {entries : List (κ × α)} {m : OrderedMap κ α}
    (hkeys : (m.keys ++ entries.map Prod.fst).Nodup) :
    (m.insertAll entries).entries = m.entries ++ entries := by
  induction entries generalizing m with
  | nil => simp [insertAll]
  | cons entry rest ih =>
      obtain ⟨k, a⟩ := entry
      have hnew : k ∉ m.keys := by
        intro hmem
        rw [List.nodup_append] at hkeys
        exact hkeys.2.2 k hmem k (by simp) rfl
      have hinsert : (m.insert k a).entries = m.entries ++ [(k, a)] :=
        entries_alter_of_not_mem hnew _
      have hrest : ((m.insert k a).keys ++ rest.map Prod.fst).Nodup := by
        rw [keys_insert, if_neg hnew, List.append_assoc]
        exact hkeys
      apply Eq.trans (ih hrest)
      rw [hinsert, List.append_assoc]
      rfl

theorem entries_ofList {entries : List (κ × α)} (hkeys : (entries.map Prod.fst).Nodup) :
    (ofList entries).entries = entries :=
  entries_insertAll (m := ∅) hkeys

end ClusterBlueprint.OrderedMap
