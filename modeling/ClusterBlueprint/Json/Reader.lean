import ClusterBlueprint.Json.Token.Number
import ClusterBlueprint.Json.Token.Text

namespace ClusterBlueprint.Json

def greatestDepth : Nat := 127

/-- What comes next inside an array or an object; the bytes begin with the closing bracket, or with
the item or the key. -/
inductive Next where
  | close (bytes : Bytes)
  | more (bytes : Bytes)

def nextItem (first : Bool) (bytes : Bytes) : Except Failure Next :=
  match skipBlanks bytes with
  | [] => .error (.here .endInArray [])
  | b :: rest =>
      if b = byte ']' then .ok (.close (b :: rest))
      else if first then .ok (.more (b :: rest))
      else if b = byte ',' then
        match skipBlanks rest with
        | [] => .error (.here .endInValue [])
        | b :: rest =>
            if b = byte ']' then .error (.afterNext .trailingComma (b :: rest))
            else .ok (.more (b :: rest))
      else .error (.afterNext .expectedItemEnd (b :: rest))

def nextKey (first : Bool) (bytes : Bytes) : Except Failure Next :=
  match skipBlanks bytes with
  | [] => .error (.here .endInObject [])
  | b :: rest =>
      if b = byte '\x7d' then .ok (.close (b :: rest))
      else if first then
        if b = byte '"' then .ok (.more (b :: rest))
        else .error (.afterNext .keyNotText (b :: rest))
      else if b = byte ',' then
        match skipBlanks rest with
        | [] => .error (.here .endInValue [])
        | b :: rest =>
            if b = byte '"' then .ok (.more (b :: rest))
            else if b = byte '\x7d' then .error (.afterNext .trailingComma (b :: rest))
            else .error (.afterNext .keyNotText (b :: rest))
      else .error (.afterNext .expectedMemberEnd (b :: rest))

def readColon (bytes : Bytes) : Except Failure Bytes :=
  match skipBlanks bytes with
  | [] => .error (.here .endInObject [])
  | b :: rest =>
      if b = byte ':' then .ok rest else .error (.afterNext .expectedColon (b :: rest))

/-- Reads the items of an array up to and with its closing bracket; `steps` bounds their number. -/
def readItems {α : Type} (item : Reader α) : (steps : Nat) → (first : Bool) → Reader (List α)
  | 0, _, _ => .error (.here .endInArray [])
  | steps + 1, first, bytes => do
      match ← nextItem first bytes with
      | .close rest => .ok ([], rest.drop 1)
      | .more rest =>
          let (a, rest) ← item rest
          let (as, rest) ← readItems item steps false rest
          .ok (a :: as, rest)

/-- Reads the members of an object up to and with its closing brace, each by a reader that goes on
from after the key and takes what was read before; `steps` bounds their number. -/
def readMembers {σ : Type} (member : String → σ → Reader σ) :
    (steps : Nat) → (first : Bool) → σ → Reader σ
  | 0, _, _, _ => .error (.here .endInObject [])
  | steps + 1, first, s, bytes => do
      match ← nextKey first bytes with
      | .close rest => .ok (s, rest.drop 1)
      | .more rest =>
          let (key, rest) ← Token.readText (rest.drop 1)
          let (s, rest) ← member key s rest
          readMembers member steps false s rest

/-- What is left of a text when an array in it is given up: a closing bracket or a comma that comes
next is passed over. -/
def closeArray (bytes : Bytes) : Bytes :=
  match skipBlanks bytes with
  | [] => []
  | b :: rest =>
      if b = byte ']' then rest
      else if b = byte ',' then skipBlanks rest
      else b :: rest

/-- What is left of a text when an object in it is given up: a closing brace that comes next is
passed over. -/
def closeObject (bytes : Bytes) : Bytes :=
  match skipBlanks bytes with
  | [] => []
  | b :: rest => if b = byte '\x7d' then rest else b :: rest

def readArray {α : Type} (item : Reader α) (bytes : Bytes) : Except Failure (List α × Bytes) :=
  (readItems item (bytes.length + 1) true bytes).mapError (Failure.locate closeArray)

def readObject {σ : Type} (member : String → σ → Reader σ) (s : σ) (bytes : Bytes) :
    Except Failure (σ × Bytes) :=
  (readMembers member (bytes.length + 1) true s bytes).mapError (Failure.locate closeObject)

/-- A member reader that puts each value into what was read before. -/
def memberOf {α σ : Type} (value : Reader α) (put : String → α → σ → σ) (key : String) (s : σ) :
    Reader σ := fun bytes => do
  let rest ← readColon bytes
  let (a, rest) ← value rest
  .ok (put key a s, rest)

/-- Puts a member into a sorted list of members; of a repeated key the last value counts. -/
def putMember (key : String) (value : Value) (members : List (String × Value)) :
    List (String × Value) :=
  SortedMap.alterEntry key (fun _ => value) members

/-- Reads a value; arrays and objects are read by the given readers, from their opening bracket
on. -/
def readValueWith (array object : Reader Value) (bytes : Bytes) :
    Except Failure (Value × Bytes) :=
  match skipBlanks bytes with
  | [] => .error (.here .endInValue [])
  | b :: rest =>
      if b = byte 'n' then (readWord ['u', 'l', 'l'] rest).map (.null, ·)
      else if b = byte 't' then (readWord ['r', 'u', 'e'] rest).map (.bool true, ·)
      else if b = byte 'f' then (readWord ['a', 'l', 's', 'e'] rest).map (.bool false, ·)
      else if b = byte '-' || (digit? b).isSome then
        (Token.readNumber (b :: rest)).map fun (n, rest) => (.number n, rest)
      else if b = byte '"' then (Token.readText rest).map fun (s, rest) => (.text s, rest)
      else if b = byte '[' then array (b :: rest)
      else if b = byte '\x7b' then object (b :: rest)
      else .error (.afterNext .expectedValue (b :: rest))

def refuseDepth {α : Type} : Reader α := fun bytes => .error (.afterNext .tooDeep bytes)

/-- Reads a value in which at most `depth` arrays and objects stand in one another. -/
def readValue : (depth : Nat) → Reader Value
  | 0 => readValueWith refuseDepth refuseDepth
  | depth + 1 =>
      readValueWith
        (fun bytes =>
          (readArray (readValue depth) (bytes.drop 1)).map fun (items, rest) =>
            (.array items, rest))
        (fun bytes =>
          (readObject (memberOf (readValue depth) putMember) [] (bytes.drop 1)).map
            fun (members, rest) => (.object members, rest))

/-- Reads a text that holds one thing and nothing but blanks after it. -/
def readWhole {α : Type} (reader : Reader α) (text : Bytes) : Except Error α :=
  match reader text with
  | .error e => .error (e.toError text)
  | .ok (a, rest) =>
      match skipBlanks rest with
      | [] => .ok a
      | rest => .error ((Failure.afterNext .trailingCharacters rest).toError text)

def parse (text : Bytes) : Except Error Value :=
  readWhole (readValue greatestDepth) text

end ClusterBlueprint.Json
