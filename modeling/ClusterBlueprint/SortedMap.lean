namespace ClusterBlueprint

universe u

/-- A finite map from texts, its entries in ascending order of the keys. -/
structure SortedMap (α : Type u) where
  entries : List (String × α)
  sorted : (entries.map Prod.fst).Pairwise (· < ·)
deriving DecidableEq

namespace SortedMap

variable {α : Type u}

def lookupEntry (key : String) : List (String × α) → Option α
  | [] => none
  | (k, a) :: rest => if k = key then some a else lookupEntry key rest

/-- Replaces the value of a key by a function of what it was; a new key goes before the first
greater one. -/
def alterEntry (key : String) (f : Option α → α) : List (String × α) → List (String × α)
  | [] => [(key, f none)]
  | (k, a) :: rest =>
      if k = key then (k, f (some a)) :: rest
      else if key < k then (key, f none) :: (k, a) :: rest
      else (k, a) :: alterEntry key f rest

def eraseEntry (key : String) : List (String × α) → List (String × α)
  | [] => []
  | (k, a) :: rest => if k = key then rest else (k, a) :: eraseEntry key rest

theorem mem_keys_alterEntry {key key' : String} {f : Option α → α}
    {entries : List (String × α)} :
    key' ∈ (alterEntry key f entries).map Prod.fst ↔
      key' = key ∨ key' ∈ entries.map Prod.fst := by
  induction entries with
  | nil => simp [alterEntry]
  | cons entry rest ih =>
      obtain ⟨k, a⟩ := entry
      by_cases hk : k = key
      · subst hk
        simp [alterEntry]
      · by_cases hlt : key < k
        · simp [alterEntry, hk, hlt]
        · simp only [alterEntry, hk, hlt, if_false, List.map_cons, List.mem_cons, ih]
          constructor
          · rintro (h | h | h)
            · exact .inr (.inl h)
            · exact .inl h
            · exact .inr (.inr h)
          · rintro (h | h | h)
            · exact .inr (.inl h)
            · exact .inl h
            · exact .inr (.inr h)

theorem sorted_alterEntry (key : String) (f : Option α → α) {entries : List (String × α)}
    (h : (entries.map Prod.fst).Pairwise (· < ·)) :
    ((alterEntry key f entries).map Prod.fst).Pairwise (· < ·) := by
  induction entries with
  | nil => simp [alterEntry]
  | cons entry rest ih =>
      obtain ⟨k, a⟩ := entry
      rw [List.map_cons, List.pairwise_cons] at h
      by_cases hk : k = key
      · subst hk
        simpa [alterEntry, List.pairwise_cons] using h
      · by_cases hlt : key < k
        · simp only [alterEntry, hk, hlt, if_false, if_true, List.map_cons, List.pairwise_cons]
          refine ⟨?_, h.1, h.2⟩
          intro k' hk'
          rcases List.mem_cons.mp hk' with rfl | hmem
          · exact hlt
          · exact String.lt_trans hlt (h.1 k' hmem)
        · simp only [alterEntry, hk, hlt, if_false, List.map_cons, List.pairwise_cons]
          refine ⟨?_, ih h.2⟩
          intro k' hk'
          rcases mem_keys_alterEntry.mp hk' with rfl | hmem
          · exact Decidable.byContradiction fun hge =>
              hk (String.le_antisymm (String.not_lt.mp hlt) (String.not_lt.mp hge))
          · exact h.1 k' hmem

theorem eraseEntry_sublist (key : String) (entries : List (String × α)) :
    (eraseEntry key entries).Sublist entries := by
  induction entries with
  | nil => exact .slnil
  | cons entry rest ih =>
      obtain ⟨k, a⟩ := entry
      by_cases hk : k = key
      · simp [eraseEntry, hk]
      · simpa [eraseEntry, hk] using ih

theorem sorted_eraseEntry (key : String) {entries : List (String × α)}
    (h : (entries.map Prod.fst).Pairwise (· < ·)) :
    ((eraseEntry key entries).map Prod.fst).Pairwise (· < ·) :=
  h.sublist ((eraseEntry_sublist key entries).map Prod.fst)

def empty : SortedMap α where
  entries := []
  sorted := by simp

instance : EmptyCollection (SortedMap α) := ⟨empty⟩

instance : Inhabited (SortedMap α) := ⟨empty⟩

def keys (m : SortedMap α) : List String :=
  m.entries.map Prod.fst

def size (m : SortedMap α) : Nat :=
  m.entries.length

def get? (m : SortedMap α) (key : String) : Option α :=
  lookupEntry key m.entries

def contains (m : SortedMap α) (key : String) : Bool :=
  (m.get? key).isSome

def alter (m : SortedMap α) (key : String) (f : Option α → α) : SortedMap α where
  entries := alterEntry key f m.entries
  sorted := sorted_alterEntry key f m.sorted

def insert (m : SortedMap α) (key : String) (value : α) : SortedMap α :=
  m.alter key fun _ => value

def erase (m : SortedMap α) (key : String) : SortedMap α where
  entries := eraseEntry key m.entries
  sorted := sorted_eraseEntry key m.sorted

/-- The map of a list of entries; of a repeated key the last value counts. -/
def ofList (entries : List (String × α)) : SortedMap α :=
  entries.foldl (fun m (key, value) => m.insert key value) ∅

end SortedMap

abbrev SortedSet := SortedMap Unit

namespace SortedSet

def insertAll (s : SortedSet) (items : List String) : SortedSet :=
  items.foldl (fun s item => s.insert item ()) s

def ofList (items : List String) : SortedSet :=
  insertAll ∅ items

def toList (s : SortedSet) : List String :=
  s.keys

end SortedSet

end ClusterBlueprint
