/-!
Finite maps that remember the order in which their keys were first put in. Putting a value under a
key that is already there keeps the key's place. The view of a map is its list of entries; `keys`
says what an update does to the order and `get?` what it does to the contents.
-/

namespace ClusterBlueprint

universe u v

/-- A finite map whose keys keep the order of their first insertion. -/
structure OrderedMap (κ : Type u) (α : Type v) where
  entries : List (κ × α)
  distinct : (entries.map Prod.fst).Nodup
deriving DecidableEq

namespace OrderedMap

variable {κ : Type u} {α : Type v}

def lookupEntry [DecidableEq κ] (key : κ) : List (κ × α) → Option α
  | [] => none
  | (k, a) :: rest => if k = key then some a else lookupEntry key rest

/-- Replaces the value of a key by a function of what it was; a new key goes to the end. -/
def alterEntry [DecidableEq κ] (key : κ) (f : Option α → α) : List (κ × α) → List (κ × α)
  | [] => [(key, f none)]
  | (k, a) :: rest =>
      if k = key then (k, f (some a)) :: rest else (k, a) :: alterEntry key f rest

theorem keys_alterEntry [DecidableEq κ] (key : κ) (f : Option α → α) (entries : List (κ × α)) :
    (alterEntry key f entries).map Prod.fst =
      if key ∈ entries.map Prod.fst then entries.map Prod.fst
      else entries.map Prod.fst ++ [key] := by
  induction entries with
  | nil => simp [alterEntry]
  | cons entry rest ih =>
      obtain ⟨k, a⟩ := entry
      by_cases hk : k = key
      · simp [alterEntry, hk]
      · have hne : ¬ key = k := fun h => hk h.symm
        simp only [alterEntry, hk, if_false, List.map_cons, ih, List.mem_cons, hne, false_or]
        split <;> simp

theorem nodup_alterEntry [DecidableEq κ] (key : κ) (f : Option α → α) {entries : List (κ × α)}
    (h : (entries.map Prod.fst).Nodup) : ((alterEntry key f entries).map Prod.fst).Nodup := by
  rw [keys_alterEntry]
  split
  · exact h
  · rename_i hkey
    rw [List.nodup_append]
    refine ⟨h, by simp, ?_⟩
    intro a ha b hb hab
    rw [List.mem_singleton.mp hb] at hab
    exact hkey (hab ▸ ha)

theorem lookupEntry_alterEntry [DecidableEq κ] (key key' : κ) (f : Option α → α)
    (entries : List (κ × α)) :
    lookupEntry key' (alterEntry key f entries) =
      if key' = key then some (f (lookupEntry key entries)) else lookupEntry key' entries := by
  induction entries with
  | nil =>
      by_cases h : key' = key
      · simp [alterEntry, lookupEntry, h]
      · have hne : ¬ key = key' := fun h' => h h'.symm
        simp [alterEntry, lookupEntry, h, hne]
  | cons entry rest ih =>
      obtain ⟨k, a⟩ := entry
      by_cases hk : k = key
      · subst hk
        by_cases h : key' = k
        · simp [alterEntry, lookupEntry, h]
        · have hne : ¬ k = key' := fun h' => h h'.symm
          simp [alterEntry, lookupEntry, h, hne]
      · by_cases h : k = key'
        · subst h
          simp [alterEntry, lookupEntry, hk]
        · simp [alterEntry, lookupEntry, hk, h, ih]

def empty : OrderedMap κ α where
  entries := []
  distinct := by simp

instance : EmptyCollection (OrderedMap κ α) := ⟨empty⟩

instance : Inhabited (OrderedMap κ α) := ⟨empty⟩

def keys (m : OrderedMap κ α) : List κ :=
  m.entries.map Prod.fst

def values (m : OrderedMap κ α) : List α :=
  m.entries.map Prod.snd

def isEmpty (m : OrderedMap κ α) : Bool :=
  m.entries.isEmpty

variable [DecidableEq κ]

def get? (m : OrderedMap κ α) (key : κ) : Option α :=
  lookupEntry key m.entries

def contains (m : OrderedMap κ α) (key : κ) : Bool :=
  (m.get? key).isSome

def alter (m : OrderedMap κ α) (key : κ) (f : Option α → α) : OrderedMap κ α where
  entries := alterEntry key f m.entries
  distinct := nodup_alterEntry key f m.distinct

def insert (m : OrderedMap κ α) (key : κ) (value : α) : OrderedMap κ α :=
  m.alter key fun _ => value

def insertAll (m : OrderedMap κ α) (entries : List (κ × α)) : OrderedMap κ α :=
  entries.foldl (fun m (key, value) => m.insert key value) m

/-- The map of a list of entries; of a repeated key the place is the first and the value the
last. -/
def ofList (entries : List (κ × α)) : OrderedMap κ α :=
  insertAll ∅ entries

/-- Whether two maps hold the same entries in any order, values compared by `same`. -/
def agrees (same : α → α → Bool) (m n : OrderedMap κ α) : Bool :=
  m.entries.length == n.entries.length &&
    m.entries.all fun (key, value) =>
      match n.get? key with
      | some other => same value other
      | none => false

@[simp]
theorem keys_alter (m : OrderedMap κ α) (key : κ) (f : Option α → α) :
    (m.alter key f).keys = if key ∈ m.keys then m.keys else m.keys ++ [key] :=
  keys_alterEntry key f m.entries

@[simp]
theorem get?_alter (m : OrderedMap κ α) (key key' : κ) (f : Option α → α) :
    (m.alter key f).get? key' = if key' = key then some (f (m.get? key)) else m.get? key' :=
  lookupEntry_alterEntry key key' f m.entries

@[simp]
theorem keys_insert (m : OrderedMap κ α) (key : κ) (value : α) :
    (m.insert key value).keys = if key ∈ m.keys then m.keys else m.keys ++ [key] :=
  keys_alter m key _

@[simp]
theorem get?_insert (m : OrderedMap κ α) (key key' : κ) (value : α) :
    (m.insert key value).get? key' = if key' = key then some value else m.get? key' :=
  get?_alter m key key' _

@[simp]
theorem get?_empty (key : κ) : (∅ : OrderedMap κ α).get? key = none :=
  rfl

end OrderedMap

end ClusterBlueprint
