import ClusterBlueprint.Json.Decoder
import ClusterBlueprint.Json.Skip

/-!
Records. A record is an object whose members are fields; members of other names are passed over. It
may also be written as an array of its fields in their order. A field may have a value that it takes
when it is absent; the fields of the other kind are required.
-/

namespace ClusterBlueprint.Json

/-- The fields of a record, in their order. -/
inductive Fields : Type 1 where
  | nil
  | cons {α : Type} (name : String) (decoder : Decoder α) (absent : Option α) (rest : Fields)

namespace Fields

def Row : Fields → Type
  | .nil => Unit
  | .cons (α := α) _ _ _ rest => α × rest.Row

/-- The values of the fields that have been found so far. -/
def Slots : Fields → Type
  | .nil => Unit
  | .cons (α := α) _ _ _ rest => Option α × rest.Slots

def count : Fields → Nat
  | .nil => 0
  | .cons _ _ _ rest => rest.count + 1

def vacant : (fields : Fields) → fields.Slots
  | .nil => ()
  | .cons _ _ _ rest => (none, rest.vacant)

/-- Finds the field of a name and decodes its value into its slot; a field that has been found
before is refused. `none` means that no field has the name. -/
def fill {ε : Type} (refuse : Fault → Except ε Bytes)
    (decode : {α : Type} → Decoder α → Except ε (α × Bytes)) :
    (fields : Fields) → (name : String) → fields.Slots → Option (Except ε (fields.Slots × Bytes))
  | .nil, _, _ => none
  | .cons field decoder _ rest, name, (slot, slots) =>
      if name = field then
        some (match slot with
          | some _ => (refuse (.duplicateField field)).map ((slot, slots), ·)
          | none => (decode decoder).map fun (a, bytes) => ((some a, slots), bytes))
      else
        (fill refuse decode rest name slots).map fun result =>
          result.map fun (slots, bytes) => ((slot, slots), bytes)

/-- The values of all fields, absent ones included, or the first required field that is missing. -/
def complete : (fields : Fields) → fields.Slots → Except Fault fields.Row
  | .nil, _ => .ok ()
  | .cons name _ absent rest, (slot, slots) =>
      match slot <|> absent with
      | some a => (complete rest slots).map (a, ·)
      | none => .error (.missingField name)

def ofMembers (fields : Fields) :
    List (String × Value) → fields.Slots → Except Fault fields.Slots
  | [], slots => .ok slots
  | (name, v) :: members, slots =>
      match fields.fill .error (fun d => (d.ofValue v).map (·, [])) name slots with
      | some (.ok (slots, _)) => ofMembers fields members slots
      | some (.error fault) => .error fault
      | none => ofMembers fields members slots

/-- Converts the items of an array into the fields in their order. `index` counts the items before,
and `tooFew` is the fault of an array that ends before a required field. Gives the items that are
left over too. -/
def ofItems (tooFew : (index : Nat) → Fault) :
    (fields : Fields) → (index : Nat) → List Value → Except Fault (fields.Row × List Value)
  | .nil, _, items => .ok ((), items)
  | .cons _ _ absent rest, index, [] =>
      match absent with
      | some a => (ofItems tooFew rest (index + 1) []).map fun (row, items) => ((a, row), items)
      | none => .error (tooFew index)
  | .cons _ decoder _ rest, index, v :: items => do
      let a ← decoder.ofValue v
      let (row, items) ← ofItems tooFew rest (index + 1) items
      .ok ((a, row), items)

/-- Reads a member of a record after its key: a field, or something to pass over. -/
def readMember (fields : Fields) (depth : Nat) (name : String) (slots : fields.Slots) :
    Reader fields.Slots := fun bytes =>
  let decode {α : Type} (d : Decoder α) : Except Failure (α × Bytes) := do
    let rest ← readColon bytes
    d.read depth rest
  match fields.fill (fun fault => .error (.unlocated fault bytes)) decode name slots with
  | some result => result
  | none => do
      let rest ← readColon bytes
      let rest ← Skip.value rest
      .ok (slots, rest)

def readItems (depth : Nat) (tooFew : (index : Nat) → Fault) :
    (fields : Fields) → (index : Nat) → Reader fields.Row
  | .nil, _, bytes => .ok ((), bytes)
  | .cons _ decoder absent rest, index, bytes => do
      match ← nextItem (index == 0) bytes with
      | .close bytes =>
          match absent with
          | some a =>
              let (row, bytes) ← readItems depth tooFew rest (index + 1) bytes
              .ok ((a, row), bytes)
          | none => .error (.unlocated (tooFew index) bytes)
      | .more bytes =>
          let (a, bytes) ← decoder.read depth bytes
          let (row, bytes) ← readItems depth tooFew rest (index + 1) bytes
          .ok ((a, row), bytes)

end Fields

def readArrayEnd (bytes : Bytes) : Except Failure Bytes :=
  match skipBlanks bytes with
  | [] => .error (.here .endInArray [])
  | b :: rest =>
      if b = byte ']' then .ok rest
      else if b = byte ',' then
        match skipBlanks rest with
        | [] => .error (.here .trailingCharacters [])
        | b :: rest =>
            if b = byte ']' then .error (.afterNext .trailingComma (b :: rest))
            else .error (.afterNext .trailingCharacters (b :: rest))
      else .error (.afterNext .trailingCharacters (b :: rest))

namespace Decoder

variable {β : Type}

def readRecordObject (fields : Fields) (depth : Nat) (bytes : Bytes) :
    Except Failure (fields.Row × Bytes) :=
  let complete : Except Failure (fields.Row × Bytes) := do
    let (slots, rest) ←
      readMembers (fields.readMember depth) (bytes.length + 1) true fields.vacant bytes
    match fields.complete slots with
    | .ok row => .ok (row, rest)
    | .error fault => .error (.located fault rest.length)
  complete.mapError (Failure.locate closeObject)

def readRecordArray (name : String) (fields : Fields) (depth : Nat) (bytes : Bytes) :
    Except Failure (fields.Row × Bytes) := do
  let tooFew (index : Nat) : Fault := .tooFewItems index name fields.count
  let (row, rest) ←
    (fields.readItems depth tooFew 0 bytes).mapError (Failure.locate closeArray)
  let rest ← readArrayEnd rest
  .ok (row, rest)

def record (name : String) (fields : Fields) (build : fields.Row → β) : Decoder β where
  ofValue
    | .object members => do
        let slots ← fields.ofMembers members fields.vacant
        (fields.complete slots).map build
    | .array items => do
        let (row, left) ← fields.ofItems (.tooFewItems · name fields.count) 0 items
        if left.isEmpty then .ok (build row) else .error (.tooManyItems items.length)
    | v => .error (.wrongKind v.kind (.record name))
  read depth bytes :=
    match skipBlanks bytes with
    | [] => .error (.here .endInValue [])
    | b :: rest =>
        if b = byte '\x7b' then
          (nested (byte '\x7b') depth (readRecordObject fields) rest).map fun (row, rest) =>
            (build row, rest)
        else if b = byte '[' then
          (nested (byte '[') depth (readRecordArray name fields) rest).map fun (row, rest) =>
            (build row, rest)
        else .error (wrongKind (.record name) (b :: rest))

end Decoder

end ClusterBlueprint.Json
