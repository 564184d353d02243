import ClusterBlueprint.Json.Record
import ClusterBlueprint.Proofs.Json.Local.Skip
import Mathlib.Data.List.TakeWhile

namespace ClusterBlueprint.Json

variable {α β σ : Type}

/-- Whether a decoder takes what it reads off the front of a text, at any depth. -/
def Decoder.IsLocal (d : Decoder α) : Prop :=
  ∀ depth, Json.IsLocal 1 Prod.mk (d.read depth)

/-- Whether the decoders of all fields are of this kind. -/
def Fields.AllLocal : Fields → Prop
  | .nil => True
  | .cons _ decoder _ rest => decoder.IsLocal ∧ rest.AllLocal

namespace Decoder

theorem isLocal_beginning {reader : Reader α} (hreader : Json.IsLocal 0 Prod.mk reader)
    (first : UInt8) (expected : Expectation) :
    Json.IsLocal 1 Prod.mk (beginning first expected reader) :=
  isLocal_afterBlanks (fun _ => rfl) fun _ => hreader.ite (isLocal_error _)

theorem isLocal_nested {reader : (depth : Nat) → Reader α}
    (hreader : ∀ depth, Json.IsLocal 0 Prod.mk (reader depth)) (bracket : UInt8) (depth : Nat) :
    Json.IsLocal 0 Prod.mk (nested bracket depth reader) := by
  cases depth with
  | zero => exact isLocal_error _
  | succ depth => exact hreader depth

theorem isLocal_members {d : Decoder α} (hd : d.IsLocal) (none : σ) (put : String → α → σ → σ) :
    (d.members none put).IsLocal :=
  fun depth => isLocal_beginning
    (isLocal_nested (fun depth => isLocal_readObject (isLocal_memberOf (hd depth) put) none) _
      depth) _ _

theorem isLocal_orderedMap {d : Decoder α} (hd : d.IsLocal) : d.orderedMap.IsLocal :=
  isLocal_members hd ∅ _

theorem isLocal_property : property.IsLocal := by
  intro depth
  refine (isLocal_readValue depth).bind fun v => ?_
  dsimp only
  cases propertyText v with
  | ok s => exact isLocal_ok _ s
  | error fault => exact isLocal_error _

end Decoder

namespace Fields

/-- Reads the value of a member into the slot of the field that has its name, if there is one. -/
def fillFrom (fields : Fields) (depth : Nat) (name : String) (slots : fields.Slots)
    (bytes : Bytes) : Option (Except Failure (fields.Slots × Bytes)) :=
  fields.fill (fun fault => .error (.unlocated fault bytes))
    (fun d => do
      let rest ← readColon bytes
      d.read depth rest) name slots

theorem isLocal_fillFrom {fields : Fields} (hfields : fields.AllLocal) (depth : Nat)
    (name : String) (slots : fields.Slots) :
    (∀ bytes, fields.fillFrom depth name slots bytes = none) ∨
      ∃ f, IsLocal 0 Prod.mk f ∧
        ∀ bytes, fields.fillFrom depth name slots bytes = some (f bytes) := by
  induction fields with
  | nil => exact .inl fun _ => rfl
  | cons field decoder absent rest ih =>
      obtain ⟨slot, slots⟩ := slots
      by_cases hname : name = field
      · simp only [fillFrom, fill, if_pos hname]
        cases slot with
        | some a => exact .inr ⟨_, isLocal_error _, fun _ => rfl⟩
        | none =>
            have hvalue : IsLocal 0 Prod.mk fun bytes => readColon bytes >>= decoder.read depth :=
              (isLocal_readColon.bind fun _ => (hfields.1 depth).weaken).weaken
            have hslot : IsLocal 0 Prod.mk fun bytes => (readColon bytes >>= decoder.read depth).map
                fun found => ((some found.1, slots), found.2) :=
              hvalue.map (k := fun a => (some a, slots)) fun _ _ => rfl
            exact .inr ⟨_, hslot, fun _ => rfl⟩
      · simp only [fillFrom, fill, if_neg hname]
        rcases ih hfields.2 slots with hnone | ⟨f, hf, hfill⟩
        · refine .inl fun bytes => ?_
          rw [← fillFrom, hnone bytes]
          rfl
        · have hslots : IsLocal 0 Prod.mk fun bytes => (f bytes).map
              fun filled => ((slot, filled.1), filled.2) :=
            hf.map (k := fun slots => (slot, slots)) fun _ _ => rfl
          refine .inr ⟨_, hslots, fun bytes => ?_⟩
          rw [← fillFrom, hfill bytes]
          rfl

theorem isLocal_readMember {fields : Fields} (hfields : fields.AllLocal) (depth : Nat)
    (name : String) (slots : fields.Slots) :
    IsLocal 0 Prod.mk (fields.readMember depth name slots) := by
  have hskip : IsLocal 0 Prod.mk fun bytes =>
      readColon bytes >>= fun rest => Skip.value rest >>= fun rest => .ok (slots, rest) := by
    refine (isLocal_readColon.bind fun _ => ?_).weaken
    exact Skip.isLocal_value.bind (h := fun rest => .ok (slots, rest)) fun _ => isLocal_ok _ slots
  have hread : fields.readMember depth name slots = fun bytes =>
      (fields.fillFrom depth name slots bytes).getD
        (readColon bytes >>= fun rest => Skip.value rest >>= fun rest => .ok (slots, rest)) := by
    funext bytes
    rw [readMember, fillFrom]
    split
    next h => rw [h]; rfl
    next h => rw [h]; rfl
  rw [hread]
  rcases isLocal_fillFrom hfields depth name slots with hnone | ⟨f, hf, hfill⟩
  · simpa only [hnone, Option.getD_none] using hskip
  · simpa only [hfill, Option.getD_some] using hf

/-- What is got from the items of an array, by the values of the fields and whether the closing
bracket has been seen, and by the rest; the bracket is left. -/
def itemsBefore : α × Bool → Bytes → α × Bytes
  | (a, closed), rest => (a, if closed then byte ']' :: rest else rest)

/-- Before the closing bracket no field is there, and the bracket is left. -/
theorem isLocal_readItems_close (fields : Fields) (depth : Nat) (tooFew : (index : Nat) → Fault)
    (index : Nat) :
    IsLocal 0 (fun row rest => (row, byte ']' :: rest))
      fun rest => fields.readItems depth tooFew index (byte ']' :: rest) := by
  induction fields generalizing index with
  | nil => exact isLocal_ok (fun row rest => (row, byte ']' :: rest)) ()
  | cons name decoder absent rest ih =>
      have hnext (bytes : Bytes) :=
        nextItem_close (index == 0) (skipBlanks_cons (b := byte ']') (by decide) bytes)
      simp only [readItems, hnext]
      cases absent with
      | none => exact isLocal_error _
      | some a =>
          refine (ih (index + 1)).bind
            (h := fun read => .ok ((a, read.1), read.2)) fun row => ?_
          exact isLocal_ok (fun row rest => (row, byte ']' :: rest)) (a, row)

theorem isLocal_readItems {fields : Fields} (hfields : fields.AllLocal) (depth : Nat)
    (tooFew : (index : Nat) → Fault) (index : Nat) :
    IsLocal 0 itemsBefore (fields.readItems depth tooFew index) := by
  induction fields generalizing index with
  | nil => exact isLocal_ok itemsBefore ((), false)
  | cons name decoder absent rest ih =>
      refine ((isLocal_nextItem _).bind fun next => ?_).weaken
      cases next with
      | none =>
          cases absent with
          | none => exact isLocal_error _
          | some a =>
              refine (isLocal_readItems_close rest depth tooFew (index + 1)).bind
                (h := fun read => .ok ((a, read.1), read.2)) fun row => ?_
              exact isLocal_ok itemsBefore ((a, row), true)
      | some b =>
          refine ((hfields.1 depth).uncons b).bind (h := fun found =>
            rest.readItems depth tooFew (index + 1) found.2 >>=
              fun read => .ok ((found.1, read.1), read.2)) fun a => ?_
          refine (ih hfields.2 (index + 1)).bind
            (h := fun read => .ok ((a, read.1), read.2)) fun read => ?_
          exact isLocal_ok itemsBefore ((a, read.1), read.2)

end Fields

theorem isLocal_readArrayEnd : IsLocal 0 restOnly readArrayEnd := by
  refine (isLocal_afterBlanks (fun _ => rfl) fun b => (isLocal_ok _ ()).ite ?_).weaken
  refine IsLocal.ite ?_ (isLocal_error _)
  exact (isLocal_afterBlanks (fun _ => rfl) fun b => (isLocal_error _).ite (isLocal_error _)).weaken

namespace Decoder

theorem isLocal_readRecordObject {fields : Fields} (hfields : fields.AllLocal) (depth : Nat) :
    Json.IsLocal 0 Prod.mk (readRecordObject fields depth) := by
  apply IsLocal.mapError
  have hmembers := isLocal_readMembers (fields.isLocal_readMember hfields depth) fields.vacant
  refine hmembers.bind fun slots => ?_
  dsimp only
  cases fields.complete slots with
  | ok row => exact isLocal_ok _ row
  | error fault => exact isLocal_error _

theorem isLocal_readRecordArray {fields : Fields} (hfields : fields.AllLocal) (name : String)
    (depth : Nat) : Json.IsLocal 0 Prod.mk (readRecordArray name fields depth) := by
  refine ((fields.isLocal_readItems hfields depth _ 0).mapError _).bind fun read => ?_
  obtain ⟨row, closed⟩ := read
  cases closed with
  | true => exact isLocal_ok _ row
  | false =>
      exact isLocal_readArrayEnd.bind (h := fun rest => .ok (row, rest)) fun _ => isLocal_ok _ row

theorem isLocal_record (name : String) {fields : Fields} (hfields : fields.AllLocal)
    (build : fields.Row → β) : (record name fields build).IsLocal := by
  intro depth
  refine isLocal_afterBlanks (fun _ => rfl) fun b => IsLocal.ite ?_ (.ite ?_ (isLocal_error _))
  · exact (isLocal_nested (isLocal_readRecordObject hfields) _ depth).map (k := build)
      fun _ _ => rfl
  · exact (isLocal_nested (isLocal_readRecordArray hfields name) _ depth).map (k := build)
      fun _ _ => rfl

end Decoder

def bracketed (inner : Bytes) : Bytes :=
  byte '[' :: (inner ++ [byte ']'])

/-- After the closing bracket at the end of a text there is nothing. -/
theorem eq_nil_of_append_close {inner inner' rest : Bytes}
    (h : inner ++ [byte ']'] = inner' ++ byte ']' :: rest) (hblank : skipBlanks rest = []) :
    rest = [] := by
  rcases List.eq_nil_or_concat rest with hrest | ⟨before, last, rfl⟩
  · exact hrest
  · have hlast := congrArg List.getLast? h
    simp only [List.concat_eq_append, ← List.cons_append, ← List.append_assoc,
      List.getLast?_concat, Option.some.injEq] at hlast
    have hblank := List.dropWhile_eq_nil_iff.mp hblank last (by simp)
    rw [← hlast] at hblank
    exact absurd hblank (by decide)

theorem Decoder.parse_list_eq_ok_iff {d : Decoder α} (hd : d.IsLocal) {inner : Bytes}
    {as : List α} :
    d.list.parse (bracketed inner) = .ok as ↔
      readArray (d.read 126) (inner ++ [byte ']']) = .ok (as, []) := by
  have hread : d.list.read greatestDepth (bracketed inner) =
      readArray (d.read 126) (inner ++ [byte ']']) := rfl
  rw [Decoder.parse, readWhole_eq_ok_iff, hread]
  constructor
  · rintro ⟨rest, hrest, hblank⟩
    obtain ⟨inner', hinner, -⟩ := readItems_append (hd 126) (Result.mapError_eq_ok hrest)
    rw [hrest, eq_nil_of_append_close hinner hblank]
  · exact fun h => ⟨[], h, rfl⟩

/-- Two lists that are decoded are decoded in one, one after the other. -/
theorem Decoder.parse_list_joined {d : Decoder α} (hd : d.IsLocal) {xs ys : Bytes}
    {as bs : List α} (hx : d.list.parse (bracketed xs) = .ok as)
    (hy : d.list.parse (bracketed ys) = .ok bs) :
    d.list.parse (bracketed (joined xs ys)) = .ok (as ++ bs) := by
  rw [parse_list_eq_ok_iff hd] at hx hy ⊢
  exact readArray_joined (hd 126) hx hy

end ClusterBlueprint.Json
