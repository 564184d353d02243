import ClusterBlueprint.Json.Reader
import ClusterBlueprint.Proofs.SortedMap

namespace ClusterBlueprint.Json.Value

/-- Induction over values: through the items of an array and the members of an object. -/
@[elab_as_elim]
theorem induction {motive : Value → Prop} (null : motive .null)
    (bool : ∀ b, motive (.bool b)) (number : ∀ n, motive (.number n))
    (text : ∀ s, motive (.text s))
    (array : ∀ items, (∀ v ∈ items, motive v) → motive (.array items))
    (object : ∀ members, (∀ m ∈ members, motive m.2) → motive (.object members)) (v : Value) :
    motive v :=
  @Value.rec motive (fun items => ∀ v ∈ items, motive v)
    (fun members => ∀ m ∈ members, motive m.2) (fun m => motive m.2)
    null bool number text array object (by simp)
    (fun _ _ hv hvs => List.forall_mem_cons.mpr ⟨hv, hvs⟩) (by simp)
    (fun _ _ hm hms => List.forall_mem_cons.mpr ⟨hm, hms⟩) (fun _ _ hv => hv) v

mutual

/-- How many arrays and objects stand in one another. -/
def depth : Value → Nat
  | .array items => depthItems items + 1
  | .object members => depthMembers members + 1
  | _ => 0

def depthItems : List Value → Nat
  | [] => 0
  | v :: vs => max (depth v) (depthItems vs)

def depthMembers : List (String × Value) → Nat
  | [] => 0
  | (_, v) :: members => max (depth v) (depthMembers members)

end

theorem depthItems_le_iff {items : List Value} {n : Nat} :
    depthItems items ≤ n ↔ ∀ v ∈ items, depth v ≤ n := by
  induction items with
  | nil => simp [depthItems]
  | cons v vs ih => rw [depthItems, Nat.max_le, ih, List.forall_mem_cons]

theorem depthMembers_le_iff {members : List (String × Value)} {n : Nat} :
    depthMembers members ≤ n ↔ ∀ m ∈ members, depth m.2 ≤ n := by
  induction members with
  | nil => simp [depthMembers]
  | cons m members ih => rw [depthMembers, Nat.max_le, ih, List.forall_mem_cons]

mutual

/-- Whether a value and all values inside it have a property. -/
def everywhere (p : Value → Bool) : Value → Bool
  | .array items => p (.array items) && everywhereItems p items
  | .object members => p (.object members) && everywhereMembers p members
  | v => p v

def everywhereItems (p : Value → Bool) : List Value → Bool
  | [] => true
  | v :: vs => everywhere p v && everywhereItems p vs

def everywhereMembers (p : Value → Bool) : List (String × Value) → Bool
  | [] => true
  | (_, v) :: members => everywhere p v && everywhereMembers p members

end

theorem everywhere_array {p : Value → Bool} {items : List Value} :
    everywhere p (.array items) = true ↔
      p (.array items) = true ∧ ∀ v ∈ items, everywhere p v = true := by
  have hitems : everywhereItems p items = true ↔ ∀ v ∈ items, everywhere p v = true := by
    induction items with
    | nil => simp [everywhereItems]
    | cons v vs ih => rw [everywhereItems, Bool.and_eq_true, ih, List.forall_mem_cons]
  rw [everywhere, Bool.and_eq_true, hitems]

theorem everywhere_object {p : Value → Bool} {members : List (String × Value)} :
    everywhere p (.object members) = true ↔
      p (.object members) = true ∧ ∀ m ∈ members, everywhere p m.2 = true := by
  have hmembers : everywhereMembers p members = true ↔ ∀ m ∈ members, everywhere p m.2 = true := by
    induction members with
    | nil => simp [everywhereMembers]
    | cons m members ih => rw [everywhereMembers, Bool.and_eq_true, ih, List.forall_mem_cons]
  rw [everywhere, Bool.and_eq_true, hmembers]

def isWhole : Value → Bool :=
  everywhere fun
    | .number (.double _) => false
    | _ => true

/-- Whether the keys of all objects in a value are in ascending order. -/
def isSorted : Value → Bool :=
  everywhere fun
    | .object members => (members.map Prod.fst).Pairwise (· < ·)
    | _ => true

theorem isWhole_array {items : List Value} :
    isWhole (.array items) = true ↔ ∀ v ∈ items, isWhole v = true := by
  rw [isWhole, everywhere_array]
  simp

theorem isWhole_object {members : List (String × Value)} :
    isWhole (.object members) = true ↔ ∀ m ∈ members, isWhole m.2 = true := by
  rw [isWhole, everywhere_object]
  simp

theorem isSorted_array {items : List Value} :
    isSorted (.array items) = true ↔ ∀ v ∈ items, isSorted v = true := by
  rw [isSorted, everywhere_array]
  simp

theorem isSorted_object {members : List (String × Value)} :
    isSorted (.object members) = true ↔
      (members.map Prod.fst).Pairwise (· < ·) ∧ ∀ m ∈ members, isSorted m.2 = true := by
  rw [isSorted, everywhere_object, decide_eq_true_eq]

theorem sameValue_self {v : Value} (h : v.isWhole = true) : v.sameValue v = true := by
  induction v using induction with
  | null => rfl
  | bool b => simp [sameValue]
  | number n =>
      cases n with
      | whole n fits => simp [sameValue, Number.sameValue]
      | double x => simp [isWhole, everywhere] at h
  | text s => simp [sameValue]
  | array items ih =>
      rw [isWhole_array] at h
      rw [sameValue]
      induction items with
      | nil => rfl
      | cons v vs ihvs =>
          rw [List.forall_mem_cons] at h ih
          rw [sameItems, ih.1 h.1, ihvs ih.2 h.2]
          rfl
  | object members ih =>
      rw [isWhole_object] at h
      rw [sameValue]
      induction members with
      | nil => rfl
      | cons m ms ihms =>
          rw [List.forall_mem_cons] at h ih
          rw [sameMembers, ih.1 h.1, ihms ih.2 h.2]
          simp

/-- Whether a value has whole numbers only and not too many arrays and objects in one another. -/
def Readable (depth : Nat) (v : Value) : Prop :=
  v.isWhole = true ∧ v.depth ≤ depth

theorem Readable.mono {m n : Nat} (hmn : m ≤ n) {v : Value} (h : v.Readable m) : v.Readable n :=
  ⟨h.1, Nat.le_trans h.2 hmn⟩

theorem readable_text (depth : Nat) (s : String) : Readable depth (.text s) :=
  ⟨rfl, Nat.zero_le depth⟩

theorem readable_array {depth : Nat} {items : List Value} (h : ∀ v ∈ items, v.Readable depth) :
    Readable (depth + 1) (.array items) := by
  refine ⟨isWhole_array.mpr fun v hv => (h v hv).1, Nat.succ_le_succ ?_⟩
  exact depthItems_le_iff.mpr fun v hv => (h v hv).2

theorem readable_object {depth : Nat} {members : List (String × Value)}
    (h : ∀ m ∈ members, m.2.Readable depth) : Readable (depth + 1) (.object members) := by
  refine ⟨isWhole_object.mpr fun m hm => (h m hm).1, Nat.succ_le_succ ?_⟩
  exact depthMembers_le_iff.mpr fun m hm => (h m hm).2

/-- So many empty arrays in one another, and one more. -/
def nestedArrays : Nat → Value
  | 0 => .array []
  | n + 1 => .array [nestedArrays n]

theorem depth_nestedArrays (n : Nat) : depth (nestedArrays n) = n + 1 := by
  induction n with
  | zero => rfl
  | succ n ih => rw [nestedArrays, depth, depthItems, depthItems, ih, Nat.max_zero]

theorem isWhole_nestedArrays (n : Nat) : isWhole (nestedArrays n) = true := by
  induction n with
  | zero => exact isWhole_array.mpr (List.forall_mem_nil _)
  | succ n ih => exact isWhole_array.mpr (List.forall_mem_singleton.mpr ih)

theorem isSorted_nestedArrays (n : Nat) : isSorted (nestedArrays n) = true := by
  induction n with
  | zero => exact isSorted_array.mpr (List.forall_mem_nil _)
  | succ n ih => exact isSorted_array.mpr (List.forall_mem_singleton.mpr ih)

/-- Puts members into a sorted list of members, one after the other. -/
def putMembers (members into : List (String × Value)) : List (String × Value) :=
  members.foldl (fun into m => putMember m.1 m.2 into) into

def arrange (members : List (String × Value)) : List (String × Value) :=
  putMembers members []

mutual

/-- A value with the members of all objects in ascending order of their keys; of a repeated key the
last value counts. -/
def sorted : Value → Value
  | .array items => .array (sortedItems items)
  | .object members => .object (arrange (sortedMembers members))
  | v => v

def sortedItems : List Value → List Value
  | [] => []
  | v :: vs => sorted v :: sortedItems vs

def sortedMembers : List (String × Value) → List (String × Value)
  | [] => []
  | (key, v) :: members => (key, sorted v) :: sortedMembers members

end

theorem sortedItems_eq_map (items : List Value) : sortedItems items = items.map sorted := by
  induction items with
  | nil => rfl
  | cons v vs ih => rw [sortedItems, ih, List.map_cons]

theorem keys_sortedMembers (members : List (String × Value)) :
    (sortedMembers members).map Prod.fst = members.map Prod.fst := by
  induction members with
  | nil => rfl
  | cons m members ih => rw [sortedMembers, List.map_cons, List.map_cons, ih]

theorem sortedMembers_eq_map (members : List (String × Value)) :
    sortedMembers members = members.map fun (key, v) => (key, sorted v) := by
  induction members with
  | nil => rfl
  | cons m members ih => rw [sortedMembers, ih, List.map_cons]

theorem sortedMembers_append (members members' : List (String × Value)) :
    sortedMembers (members ++ members') = sortedMembers members ++ sortedMembers members' := by
  rw [sortedMembers_eq_map, sortedMembers_eq_map, sortedMembers_eq_map, List.map_append]

theorem sorted_text (s : String) : sorted (.text s) = .text s :=
  rfl

theorem sorted_array (items : List Value) : sorted (.array items) = .array (items.map sorted) := by
  rw [sorted, sortedItems_eq_map]

theorem sorted_object (members : List (String × Value)) :
    sorted (.object members) = .object (arrange (sortedMembers members)) := by
  rw [sorted]

theorem sorted_keys_putMembers (members : List (String × Value)) {into : List (String × Value)}
    (hinto : (into.map Prod.fst).Pairwise (· < ·)) :
    ((putMembers members into).map Prod.fst).Pairwise (· < ·) := by
  induction members generalizing into with
  | nil => exact hinto
  | cons m members ih => exact ih (SortedMap.sorted_alterEntry m.1 _ hinto)

theorem sorted_keys_arrange (members : List (String × Value)) :
    ((arrange members).map Prod.fst).Pairwise (· < ·) :=
  sorted_keys_putMembers members (by simp)

theorem member?_putMembers {members : List (String × Value)}
    (hkeys : (members.map Prod.fst).Nodup) {into : List (String × Value)}
    (hinto : (into.map Prod.fst).Pairwise (· < ·)) (key : String) :
    member? (putMembers members into) key = (member? members key).or (member? into key) := by
  induction members generalizing into with
  | nil => rfl
  | cons m members ih =>
      obtain ⟨k, v⟩ := m
      rw [List.map_cons, List.nodup_cons] at hkeys
      have hput : member? (putMember k v into) key = if key = k then some v else member? into key :=
        SortedMap.lookupEntry_alterEntry k key _ hinto
      have hsorted := SortedMap.sorted_alterEntry k (fun _ => v) hinto
      rw [putMembers, List.foldl_cons]
      apply Eq.trans (ih hkeys.2 hsorted)
      rw [← putMember, hput]
      by_cases hk : key = k
      · subst hk
        have hnone : member? members key = none := SortedMap.lookupEntry_eq_none_iff.mpr hkeys.1
        have hfirst : member? ((key, v) :: members) key = some v := if_pos rfl
        rw [hnone, hfirst, if_pos rfl]
        rfl
      · rw [if_neg hk]
        simp only [member?, SortedMap.lookupEntry, if_neg fun h : k = key => hk h.symm]

theorem member?_arrange {members : List (String × Value)} (hkeys : (members.map Prod.fst).Nodup)
    (key : String) : member? (arrange members) key = member? members key := by
  rw [arrange, member?_putMembers hkeys (by simp)]
  exact Option.or_none

theorem member?_arrange_sortedMembers {members : List (String × Value)}
    (hkeys : (members.map Prod.fst).Nodup) (key : String) :
    member? (arrange (sortedMembers members)) key = (member? members key).map sorted := by
  rw [← keys_sortedMembers] at hkeys
  rw [member?_arrange hkeys, sortedMembers_eq_map]
  exact SortedMap.lookupEntry_map sorted key members

/-- The order of the members makes no difference to the sorted form of an object. -/
theorem sorted_object_congr {members members' : List (String × Value)}
    (hkeys : (members.map Prod.fst).Nodup) (hkeys' : (members'.map Prod.fst).Nodup)
    (h : ∀ key, (member? members key).map sorted = (member? members' key).map sorted) :
    sorted (.object members) = sorted (.object members') := by
  let arranged (members : List (String × Value)) : SortedMap Value :=
    ⟨arrange (sortedMembers members), sorted_keys_arrange _⟩
  have hsame : arranged members = arranged members' := by
    apply SortedMap.ext_get?
    intro key
    apply (member?_arrange_sortedMembers hkeys key).trans
    rw [h key, ← member?_arrange_sortedMembers hkeys']
    rfl
  rw [sorted_object, sorted_object]
  exact congrArg (fun m => object (SortedMap.entries m)) hsame

theorem member?_nil (key : String) : member? [] key = none :=
  rfl

theorem member?_cons (key key' : String) (v : Value) (members : List (String × Value)) :
    member? ((key, v) :: members) key' = if key = key' then some v else member? members key' :=
  rfl

theorem member?_append (members members' : List (String × Value)) (key : String) :
    member? (members ++ members') key = (member? members key).or (member? members' key) := by
  rw [member?, member?, member?]
  induction members with
  | nil => rfl
  | cons m members ih =>
      rw [List.cons_append, SortedMap.lookupEntry, SortedMap.lookupEntry, ih]
      by_cases hk : m.1 = key
      · rw [if_pos hk, if_pos hk]
        rfl
      · rw [if_neg hk, if_neg hk]

/-- A member of an object that is left out under a condition. -/
def memberUnless (absent : Bool) (key : String) (v : Value) : List (String × Value) :=
  if absent then [] else [(key, v)]

theorem member?_memberUnless (absent : Bool) (key key' : String) (v : Value) :
    member? (memberUnless absent key v) key' =
      if key = key' then if absent then none else some v else none := by
  cases absent <;> simp [memberUnless, member?, SortedMap.lookupEntry]

theorem keys_memberUnless_sublist (absent : Bool) (key : String) (v : Value) :
    ((memberUnless absent key v).map Prod.fst).Sublist [key] := by
  cases absent with
  | true => exact List.nil_sublist _
  | false => exact List.Sublist.refl _

theorem sortedMembers_memberUnless (absent : Bool) (key : String) (v : Value) :
    sortedMembers (memberUnless absent key v) = memberUnless absent key v.sorted := by
  cases absent <;> rfl

theorem readable_memberUnless {depth : Nat} {v : Value} (h : v.Readable depth) (absent : Bool)
    (key : String) : ∀ m ∈ memberUnless absent key v, m.2.Readable depth := by
  cases absent with
  | true => exact List.forall_mem_nil _
  | false => exact List.forall_mem_singleton.mpr h

theorem putMember_of_lt (key : String) (v : Value) {members : List (String × Value)}
    (h : ∀ m ∈ members, m.1 < key) : putMember key v members = members ++ [(key, v)] := by
  induction members with
  | nil => rfl
  | cons m members ih =>
      have hlt : m.1 < key := h m (by simp)
      have hne : m.1 ≠ key := fun heq => String.lt_irrefl _ (heq ▸ hlt)
      have hge : ¬ key < m.1 := fun hgt => String.lt_irrefl _ (String.lt_trans hlt hgt)
      have hrest := ih fun m' hm' => h m' (by simp [hm'])
      rw [putMember] at hrest ⊢
      simp only [SortedMap.alterEntry, hne, hge, if_false, hrest, List.cons_append]

theorem putMembers_of_sorted {members into : List (String × Value)}
    (h : ((into ++ members).map Prod.fst).Pairwise (· < ·)) :
    putMembers members into = into ++ members := by
  induction members generalizing into with
  | nil => simp [putMembers]
  | cons m members ih =>
      have hlast : ∀ m' ∈ into, m'.1 < m.1 := by
        intro m' hm'
        rw [List.map_append, List.pairwise_append] at h
        exact h.2.2 m'.1 (List.mem_map_of_mem hm') m.1 (by simp)
      rw [putMembers, List.foldl_cons, putMember_of_lt _ _ hlast]
      apply Eq.trans (ih (by simpa using h))
      simp

theorem arrange_of_sorted {members : List (String × Value)}
    (h : (members.map Prod.fst).Pairwise (· < ·)) : arrange members = members :=
  putMembers_of_sorted h

theorem sorted_of_isSorted {v : Value} (h : isSorted v = true) : sorted v = v := by
  induction v using induction with
  | null | bool | number | text => rfl
  | array items ih =>
      rw [isSorted_array] at h
      rw [sorted_array, List.map_congr_left fun v hv => ih v hv (h v hv), List.map_id']
  | object members ih =>
      rw [isSorted_object] at h
      have hmap : sortedMembers members = members := by
        rw [sortedMembers_eq_map]
        conv_rhs => rw [← List.map_id' members]
        exact List.map_congr_left fun m hm => Prod.ext rfl (ih m hm (h.2 m hm))
      rw [sorted_object, hmap, arrange_of_sorted h.1]

end ClusterBlueprint.Json.Value
