import ClusterBlueprint.Json.Reader
import ClusterBlueprint.OrderedMap

/-!
Decoders. One description of a type serves two routes: a value that has been read before is
converted, and a text is read straight into the type. The routes differ in the order in which the
members of an object are visited, in what is said about places, and in how strict they are about
members that nobody asks for.
-/

namespace ClusterBlueprint.Json

/-- A way to get an `α` from a value, and from a text in which at most `depth` arrays and objects
may still be opened. -/
structure Decoder (α : Type) where
  ofValue : Value → Except Fault α
  read : (depth : Nat) → Reader α

namespace Decoder

variable {α β : Type}

def parse (d : Decoder α) (text : Bytes) : Except Error α :=
  readWhole (d.read greatestDepth) text

def convert (d : Decoder α) (v : Value) : Except Error α :=
  (d.ofValue v).mapError Fault.withoutPosition

/-- Refuses what stands at the front of a text: a word, a number or a string is read first, and an
array or object is not opened. -/
def wrongKind (expected : Expectation) (bytes : Bytes) : Failure :=
  let scalar (read : Except Failure (Kind × Bytes)) : Failure :=
    match read with
    | .ok (found, rest) => .here (.wrongKind found expected) rest
    | .error e => e
  match skipBlanks bytes with
  | [] => .here .endInValue []
  | b :: rest =>
      if b = byte '[' then .here (.wrongKind .array expected) (b :: rest)
      else if b = byte '\x7b' then .here (.wrongKind .object expected) (b :: rest)
      else
        scalar ((readValueWith refuseDepth refuseDepth (b :: rest)).map fun (v, rest) =>
          (v.kind, rest))

/-- Reads what begins with one given byte, and refuses all else as the wrong kind. -/
def beginning (first : UInt8) (expected : Expectation) (reader : Reader α) (bytes : Bytes) :
    Except Failure (α × Bytes) :=
  match skipBlanks bytes with
  | [] => .error (.here .endInValue [])
  | b :: rest => if b = first then reader rest else .error (wrongKind expected (b :: rest))

/-- Reads the inside of an array or object with one level less, if there is one left; `bracket` is
the opening bracket, which has been read. -/
def nested (bracket : UInt8) (depth : Nat) (reader : (depth : Nat) → Reader α) : Reader α :=
  match depth with
  | 0 => fun rest => refuseDepth (bracket :: rest)
  | depth + 1 => reader depth

def value : Decoder Value where
  ofValue := .ok
  read := readValue

def text : Decoder String where
  ofValue
    | .text s => .ok s
    | v => .error (.wrongKind v.kind .text)
  read _ := beginning (byte '"') .text Token.readText

def null : Decoder Unit where
  ofValue
    | .null => .ok ()
    | v => .error (.wrongKind v.kind .null)
  read _ := beginning (byte 'n') .null fun rest => (readWord ['u', 'l', 'l'] rest).map ((), ·)

def nullable (d : Decoder α) : Decoder (Option α) where
  ofValue
    | .null => .ok none
    | v => (d.ofValue v).map some
  read depth bytes :=
    match skipBlanks bytes with
    | b :: rest =>
        if b = byte 'n' then (readWord ['u', 'l', 'l'] rest).map (none, ·)
        else (d.read depth (b :: rest)).map fun (a, rest) => (some a, rest)
    | [] => (d.read depth []).map fun (a, rest) => (some a, rest)

/-- Goes on with what another decoder found, and may refuse it in words of its own. -/
def refine (d : Decoder α) (f : α → Except String β) : Decoder β where
  ofValue v := do
    let a ← d.ofValue v
    (f a).mapError .refused
  read depth bytes := do
    let (a, rest) ← d.read depth bytes
    match f a with
    | .ok b => .ok (b, rest)
    | .error reason => .error (.unlocated (.refused reason) rest)

def map (f : α → β) (d : Decoder α) : Decoder β where
  ofValue v := (d.ofValue v).map f
  read depth bytes := (d.read depth bytes).map fun (a, rest) => (f a, rest)

def ofItems (d : Decoder α) : List Value → Except Fault (List α)
  | [] => .ok []
  | v :: vs => do
      let a ← d.ofValue v
      let as ← ofItems d vs
      .ok (a :: as)

def list (d : Decoder α) : Decoder (List α) where
  ofValue
    | .array items => d.ofItems items
    | v => .error (.wrongKind v.kind .array)
  read depth :=
    beginning (byte '[') .array (nested (byte '[') depth fun depth => readArray (d.read depth))

def ofMembers {σ : Type} (d : Decoder α) (put : String → α → σ → σ) :
    List (String × Value) → σ → Except Fault σ
  | [], s => .ok s
  | (key, v) :: members, s => do
      let a ← d.ofValue v
      ofMembers d put members (put key a s)

def members {σ : Type} (d : Decoder α) (none : σ) (put : String → α → σ → σ) : Decoder σ where
  ofValue
    | .object members => d.ofMembers put members none
    | v => .error (.wrongKind v.kind .object)
  read depth :=
    beginning (byte '\x7b') .object
      (nested (byte '\x7b') depth fun depth => readObject (memberOf (d.read depth) put) none)

def orderedMap (d : Decoder α) : Decoder (OrderedMap String α) :=
  d.members ∅ fun key a m => m.insert key a

def sortedMap (d : Decoder α) : Decoder (SortedMap α) :=
  d.members ∅ fun key a m => m.insert key a

def sortedSet : Decoder SortedSet :=
  text.list.map SortedSet.ofList

def variantNames (variants : List (String × α)) : List String :=
  variants.map Prod.fst

def findVariant (variants : List (String × α)) (name : String) : Except Fault α :=
  match variants.lookup name with
  | some a => .ok a
  | none => .error (.unknownVariant name (variantNames variants))

def readVariant (variants : List (String × α)) (bytes : Bytes) : Except Failure (α × Bytes) := do
  let (name, rest) ← Token.readText bytes
  match findVariant variants name with
  | .ok a => .ok (a, rest)
  | .error fault => .error (.here fault rest)

/-- Reads a variant that is written as an object, from after the opening brace. An object without
members is refused as the lack of a value, and not for its key. -/
def readVariantMember (variants : List (String × α)) (depth : Nat) (bytes : Bytes) :
    Except Failure (α × Bytes) :=
  match skipBlanks bytes with
  | [] => .error (.here .endInObject [])
  | b :: rest => do
      if b = byte '"' then
        let (a, rest) ← readVariant variants rest
        let rest ← readColon rest
        let (_, rest) ← null.read depth rest
        match skipBlanks rest with
        | [] => .error (.here .endInObject [])
        | b :: rest =>
            if b = byte '\x7d' then .ok (a, rest) else .error (.here .expectedValue (b :: rest))
      else if b = byte '\x7d' then .error (.afterNext .expectedValue (b :: rest))
      else .error (.afterNext .keyNotText (b :: rest))

/-- One of some variants: its name, or an object with the name as its key and null as its value. -/
def variant (variants : List (String × α)) : Decoder α where
  ofValue
    | .text name => findVariant variants name
    | .object [(name, content)] => do
        let a ← findVariant variants name
        null.ofValue content
        .ok a
    | .object _ => .error .notSingleMember
    | v => .error (.wrongKind v.kind .textOrObject)
  read depth bytes :=
    match skipBlanks bytes with
    | [] => .error (.here .endInValue [])
    | b :: rest =>
        if b = byte '\x7b' then
          nested (byte '\x7b') depth (readVariantMember variants) rest
        else if b = byte '"' then readVariant variants rest
        else .error (.afterNext .expectedValue (b :: rest))

def propertyText : Value → Except Fault String
  | .text s => .ok s
  | .number n => .ok n.toText
  | .bool true => .ok "true"
  | .bool false => .ok "false"
  | _ => .error .notPropertyValue

/-- A string, or a number or boolean that is kept as its text. Any value is read before it is
looked at. -/
def property : Decoder String where
  ofValue := propertyText
  read depth bytes := do
    let (v, rest) ← readValue depth bytes
    match propertyText v with
    | .ok s => .ok (s, rest)
    | .error fault => .error (.unlocated fault rest)

end Decoder

end ClusterBlueprint.Json
