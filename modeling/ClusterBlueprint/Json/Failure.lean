import ClusterBlueprint.Json.Error

namespace ClusterBlueprint.Json

abbrev byte (c : Char) : UInt8 :=
  UInt8.ofNat c.toNat

inductive Failure where
  /-- at the place that is followed by `left` bytes -/
  | located (fault : Fault) (left : Nat)
  /-- while `rest` was still to be read; the innermost array or object around it decides the
  place -/
  | unlocated (fault : Fault) (rest : Bytes)
deriving DecidableEq

namespace Failure

def here (fault : Fault) (rest : Bytes) : Failure :=
  .located fault rest.length

/-- A failure just after the next byte, or at the end when there is none. -/
def afterNext (fault : Fault) (rest : Bytes) : Failure :=
  .located fault (rest.length - 1)

/-- Gives the failure a place, by what `close` leaves of the bytes still to be read. -/
def locate (close : Bytes → Bytes) : Failure → Failure
  | .located fault left => .located fault left
  | .unlocated fault rest => .located fault (close rest).length

def toError (text : Bytes) : Failure → Error
  | .located fault left => ⟨fault, some (.before text left)⟩
  | .unlocated fault _ => ⟨fault, none⟩

end Failure

/-- A reader of some kind of thing: it takes the thing off the front of a text. -/
abbrev Reader (α : Type) := Bytes → Except Failure (α × Bytes)

def isBlankByte (b : UInt8) : Bool :=
  b == byte ' ' || b == byte '\n' || b == byte '\t' || b == byte '\r'

def skipBlanks (bytes : Bytes) : Bytes :=
  bytes.dropWhile isBlankByte

def readWord : (word : List Char) → Bytes → Except Failure Bytes
  | [], bytes => .ok bytes
  | _ :: _, [] => .error (.here .endInValue [])
  | c :: word, b :: rest =>
      if b = byte c then readWord word rest else .error (.here .expectedIdent rest)

def digit? (b : UInt8) : Option Nat :=
  if byte '0' ≤ b && b ≤ byte '9' then some (b.toNat - 0x30) else none

def startsWithDigit : Bytes → Bool
  | b :: _ => (digit? b).isSome
  | [] => false

end ClusterBlueprint.Json
