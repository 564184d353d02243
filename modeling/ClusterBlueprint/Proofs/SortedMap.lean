import ClusterBlueprint.SortedMap
import ClusterBlueprint.Proofs.OrderedMap
import Mathlib.Data.List.Nodup

namespace ClusterBlueprint.SortedMap

universe u

variable {α β : Type u}

theorem lookupEntry_eq_lookupEntry (key : String) (entries : List (String × α)) :
    lookupEntry key entries = OrderedMap.lookupEntry key entries := by
  induction entries with
  | nil => rfl
  | cons entry rest ih => rw [lookupEntry, OrderedMap.lookupEntry, ih]

theorem lookupEntry_eq_none_iff {key : String} {entries : List (String × α)} :
    lookupEntry key entries = none ↔ key ∉ entries.map Prod.fst := by
  rw [lookupEntry_eq_lookupEntry]
  exact OrderedMap.lookupEntry_eq_none_iff

theorem mem_of_lookupEntry {key : String} {a : α} {entries : List (String × α)}
    (h : lookupEntry key entries = some a) : (key, a) ∈ entries := by
  rw [lookupEntry_eq_lookupEntry] at h
  exact OrderedMap.mem_of_lookupEntry h

theorem lookupEntry_of_mem {key : String} {a : α} {entries : List (String × α)}
    (hkeys : (entries.map Prod.fst).Nodup) (h : (key, a) ∈ entries) :
    lookupEntry key entries = some a := by
  rw [lookupEntry_eq_lookupEntry]
  exact OrderedMap.lookupEntry_of_mem hkeys h

theorem lookupEntry_map (f : α → β) (key : String) (entries : List (String × α)) :
    lookupEntry key (entries.map fun (k, a) => (k, f a)) = (lookupEntry key entries).map f := by
  induction entries with
  | nil => rfl
  | cons entry rest ih =>
      obtain ⟨k, a⟩ := entry
      by_cases hk : k = key <;> simp [lookupEntry, hk, ih]

theorem nodup_of_sorted {entries : List (String × α)}
    (h : (entries.map Prod.fst).Pairwise (· < ·)) : (entries.map Prod.fst).Nodup := by
  refine List.Pairwise.imp ?_ h
  rintro a b hlt rfl
  exact String.lt_irrefl a hlt

theorem lookupEntry_eq_none_of_lt {key k : String} {rest : List (String × α)}
    (h : ∀ k' ∈ rest.map Prod.fst, k < k') (hlt : key < k) : lookupEntry key rest = none := by
  rw [lookupEntry_eq_none_iff]
  intro hmem
  exact String.lt_irrefl _ (String.lt_trans hlt (h key hmem))

theorem lookupEntry_alterEntry (key key' : String) (f : Option α → α)
    {entries : List (String × α)} (h : (entries.map Prod.fst).Pairwise (· < ·)) :
    lookupEntry key' (alterEntry key f entries) =
      if key' = key then some (f (lookupEntry key entries)) else lookupEntry key' entries := by
  induction entries with
  | nil =>
      by_cases hkey : key' = key
      · simp [alterEntry, lookupEntry, hkey]
      · have hne : ¬ key = key' := fun h' => hkey h'.symm
        simp [alterEntry, lookupEntry, hkey, hne]
  | cons entry rest ih =>
      obtain ⟨k, a⟩ := entry
      rw [List.map_cons, List.pairwise_cons] at h
      by_cases hk : k = key
      · subst hk
        by_cases hkey : key' = k
        · simp [alterEntry, lookupEntry, hkey]
        · have hne : ¬ k = key' := fun h' => hkey h'.symm
          simp [alterEntry, lookupEntry, hkey, hne]
      by_cases hlt : key < k
      · have hnone := lookupEntry_eq_none_of_lt h.1 hlt
        by_cases hkey : key' = key
        · simp [alterEntry, lookupEntry, hk, hlt, hkey, hnone]
        · have hne : ¬ key = key' := fun h' => hkey h'.symm
          simp [alterEntry, lookupEntry, hk, hlt, hkey, hne]
      · simp only [alterEntry, hk, hlt, if_false, lookupEntry, ih h.2]
        by_cases hkey : key' = key
        · simp [hkey, hk]
        · simp [hkey]

/-- What goes under a key depends only on what was there. -/
theorem alterEntry_congr {key : String} {f g : Option α → α} {entries : List (String × α)}
    (h : (entries.map Prod.fst).Pairwise (· < ·))
    (hfg : f (lookupEntry key entries) = g (lookupEntry key entries)) :
    alterEntry key f entries = alterEntry key g entries := by
  induction entries with
  | nil => exact congrArg (fun a => [(key, a)]) hfg
  | cons entry rest ih =>
      obtain ⟨k, a⟩ := entry
      rw [List.map_cons, List.pairwise_cons] at h
      by_cases hk : k = key
      · simp only [lookupEntry, hk, if_true] at hfg
        simp only [alterEntry, hk, if_true, hfg]
      · simp only [lookupEntry, hk, if_false] at hfg
        by_cases hlt : key < k
        · rw [lookupEntry_eq_none_of_lt h.1 hlt] at hfg
          simp only [alterEntry, hk, hlt, if_false, if_true, hfg]
        · simp only [alterEntry, hk, hlt, if_false, ih h.2 hfg]

theorem lookupEntry_eraseEntry (key key' : String) {entries : List (String × α)}
    (h : (entries.map Prod.fst).Nodup) :
    lookupEntry key' (eraseEntry key entries) =
      if key' = key then none else lookupEntry key' entries := by
  induction entries with
  | nil => simp [eraseEntry, lookupEntry]
  | cons entry rest ih =>
      obtain ⟨k, a⟩ := entry
      rw [List.map_cons, List.nodup_cons] at h
      by_cases hk : k = key
      · subst hk
        by_cases hkey : key' = k
        · simp only [eraseEntry, if_true, hkey]
          exact lookupEntry_eq_none_iff.mpr h.1
        · have hne : ¬ k = key' := fun h' => hkey h'.symm
          simp [eraseEntry, lookupEntry, hkey, hne]
      · simp only [eraseEntry, hk, if_false, lookupEntry, ih h.2]
        by_cases hkey : key' = key
        · simp [hkey, hk]
        · simp [hkey]

theorem eraseEntry_eq_filter (key : String) {entries : List (String × α)}
    (h : (entries.map Prod.fst).Nodup) :
    eraseEntry key entries = entries.filter fun (k, _) => k != key := by
  induction entries with
  | nil => rfl
  | cons entry rest ih =>
      obtain ⟨k, a⟩ := entry
      rw [List.map_cons, List.nodup_cons] at h
      by_cases hk : k = key
      · subst hk
        have hrest : ∀ entry ∈ rest, (entry.1 != k) = true := fun entry hentry =>
          bne_iff_ne.mpr fun heq => h.1 (List.mem_map.mpr ⟨entry, hentry, heq⟩)
        rw [eraseEntry, if_pos rfl, List.filter_cons_of_neg (by simp)]
        exact (List.filter_eq_self.mpr hrest).symm
      · rw [eraseEntry, if_neg hk, List.filter_cons_of_pos (by simpa using hk), ih h.2]

theorem get?_eq_none_iff {m : SortedMap α} {key : String} : m.get? key = none ↔ key ∉ m.keys :=
  lookupEntry_eq_none_iff

theorem contains_eq_true_iff {m : SortedMap α} {key : String} :
    m.contains key = true ↔ key ∈ m.keys := by
  rw [contains, Option.isSome_iff_ne_none, ne_eq, get?_eq_none_iff, not_not]

@[simp]
theorem get?_empty (key : String) : (∅ : SortedMap α).get? key = none :=
  rfl

@[simp]
theorem get?_alter (m : SortedMap α) (key key' : String) (f : Option α → α) :
    (m.alter key f).get? key' = if key' = key then some (f (m.get? key)) else m.get? key' :=
  lookupEntry_alterEntry key key' f m.sorted

@[simp]
theorem get?_insert (m : SortedMap α) (key key' : String) (value : α) :
    (m.insert key value).get? key' = if key' = key then some value else m.get? key' :=
  get?_alter m key key' _

@[simp]
theorem get?_erase (m : SortedMap α) (key key' : String) :
    (m.erase key).get? key' = if key' = key then none else m.get? key' :=
  lookupEntry_eraseEntry key key' (nodup_of_sorted m.sorted)

theorem get?_eq_some_iff {m : SortedMap α} {key : String} {a : α} :
    m.get? key = some a ↔ (key, a) ∈ m.entries :=
  ⟨mem_of_lookupEntry, lookupEntry_of_mem (nodup_of_sorted m.sorted)⟩

/-- The first entry with a value of some kind has the least key of all that have such a value. -/
theorem map_fst_find?_eq_some_iff {p : α → Bool} {m : SortedMap α} {key : String} :
    (m.entries.find? fun (_, a) => p a).map Prod.fst = some key ↔
      (∃ a, m.get? key = some a ∧ p a = true) ∧
        ∀ key' a, m.get? key' = some a → p a = true → key ≤ key' := by
  have hfirst : ∀ key a, m.entries.find? (fun (_, a) => p a) = some (key, a) →
      (m.get? key = some a ∧ p a = true) ∧
        ∀ key' a', m.get? key' = some a' → p a' = true → key ≤ key' := by
    intro key a hfind
    obtain ⟨hp, before, after, hentries, hbefore⟩ := List.find?_eq_some_iff_append.mp hfind
    have hmem : (key, a) ∈ m.entries := List.mem_of_find?_eq_some hfind
    refine ⟨⟨get?_eq_some_iff.mpr hmem, hp⟩, fun key' a' hget hp' => ?_⟩
    have hmem' := get?_eq_some_iff.mp hget
    have hsorted := List.pairwise_map.mp m.sorted
    rw [hentries, List.pairwise_append, List.pairwise_cons] at hsorted
    rw [hentries, List.mem_append, List.mem_cons] at hmem'
    rcases hmem' with hmem' | heq | hmem'
    · have hnot := hbefore _ hmem'
      simp [hp'] at hnot
    · cases heq
      exact String.le_refl key
    · exact String.not_lt.mp (String.lt_asymm (hsorted.2.1.1 _ hmem'))
  constructor
  · intro h
    obtain ⟨⟨_, a⟩, hfind, rfl⟩ := Option.map_eq_some_iff.mp h
    obtain ⟨hhas, hleast⟩ := hfirst _ a hfind
    exact ⟨⟨a, hhas⟩, hleast⟩
  · rintro ⟨⟨a, hget, hp⟩, hleast⟩
    cases hfind : m.entries.find? fun (_, a) => p a with
    | none => exact absurd hp (List.find?_eq_none.mp hfind _ (get?_eq_some_iff.mp hget))
    | some entry =>
        obtain ⟨⟨hget', hp'⟩, hleast'⟩ := hfirst entry.1 entry.2 hfind
        exact congrArg some (String.le_antisymm (hleast' key a hget hp) (hleast _ _ hget' hp'))

/-- The order of the keys leaves no choice, so what can be looked up is all there is to a map. -/
theorem ext_get? {m n : SortedMap α} (h : ∀ key, m.get? key = n.get? key) : m = n := by
  have hmem : ∀ entry, entry ∈ m.entries ↔ entry ∈ n.entries := by
    rintro ⟨key, a⟩
    rw [← get?_eq_some_iff, ← get?_eq_some_iff, h key]
  have hnodup (m : SortedMap α) : m.entries.Nodup := List.Nodup.of_map _ (nodup_of_sorted m.sorted)
  have hperm : m.entries.Perm n.entries :=
    (List.perm_ext_iff_of_nodup (hnodup m) (hnodup n)).mpr hmem
  have hentries : m.entries = n.entries := by
    refine hperm.eq_of_pairwise ?_ (List.pairwise_map.mp m.sorted) (List.pairwise_map.mp n.sorted)
    intro a b _ _ hab hba
    exact absurd (String.lt_trans hab hba) (String.lt_irrefl _)
  cases m
  cases n
  congr

theorem get?_ofList {entries : List (String × α)} (hkeys : (entries.map Prod.fst).Nodup)
    (key : String) : (ofList entries).get? key = lookupEntry key entries := by
  have hstep : ∀ (m : SortedMap α) k a key,
      (m.insert k a).get? key = (if key = k then some a else none).or (m.get? key) := by
    intro m k a key
    rw [get?_insert]
    split <;> rfl
  rw [lookupEntry_eq_lookupEntry]
  apply Eq.trans (OrderedMap.view_foldl (fun m entry => m.insert entry.1 entry.2) get? some hstep
    hkeys ∅ key)
  rw [Option.bind_fun_some, get?_empty, Option.or_none]

/-- A map is the map of its own entries. -/
theorem ofList_entries (m : SortedMap α) : ofList m.entries = m :=
  ext_get? (get?_ofList (nodup_of_sorted m.sorted))

end ClusterBlueprint.SortedMap

namespace ClusterBlueprint.SortedSet

theorem ofList_eq (items : List String) : ofList items = SortedMap.ofList (items.map (·, ())) := by
  rw [SortedMap.ofList, List.foldl_map]
  rfl

theorem ofList_toList (s : SortedSet) : ofList s.toList = s := by
  rw [ofList_eq, toList, SortedMap.keys, List.map_map]
  apply Eq.trans (congrArg SortedMap.ofList (List.map_id _))
  exact SortedMap.ofList_entries s

end ClusterBlueprint.SortedSet
