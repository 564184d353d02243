import ClusterBlueprint.Json.Token.Text
import ClusterBlueprint.Json.Reader

/-!
Passing over a value that nobody asks for. Its brackets, commas, words and numbers are checked, but
not what it would mean: numbers may be out of range, strings need not be UTF-8, surrogates need not
pair up, and the nesting may be of any depth.
-/

namespace ClusterBlueprint.Json.Skip

def exponent (bytes : Bytes) : Except Failure Bytes :=
  match (Token.readSign bytes).2 with
  | [] => .error (.here .invalidNumber [])
  | b :: rest =>
      match digit? b with
      | some _ => .ok (Token.passDigits rest).2
      | none => .error (.here .invalidNumber rest)

def scale (bytes : Bytes) : Except Failure Bytes :=
  if Token.startsWithExponent bytes then exponent (bytes.drop 1) else .ok bytes

def afterInteger (bytes : Bytes) : Except Failure Bytes :=
  match bytes with
  | b :: rest =>
      if b = byte '.' then
        if startsWithDigit rest then scale (Token.passDigits rest).2
        else .error (.afterNext .invalidNumber rest)
      else scale bytes
  | [] => .ok []

def unsigned : Bytes → Except Failure Bytes
  | [] => .error (.here .invalidNumber [])
  | b :: rest =>
      match digit? b with
      | none => .error (.here .invalidNumber rest)
      | some 0 =>
          if startsWithDigit rest then .error (.afterNext .invalidNumber rest)
          else afterInteger rest
      | some _ => afterInteger (Token.passDigits rest).2

def escape : Bytes → Except Failure Bytes
  | [] => .error (.here .endInText [])
  | b :: rest =>
      if (Token.simpleEscape? b).isSome then .ok rest
      else if b = byte 'u' then (Token.readHex rest).map Prod.snd
      else .error (.here .invalidEscape rest)

def text : (steps : Nat) → Bytes → Except Failure Bytes
  | 0, _ => .error (.here .endInText [])
  | _ + 1, [] => .error (.here .endInText [])
  | steps + 1, b :: rest =>
      if b = byte '"' then .ok rest
      else if b = byte '\\' then
        match escape rest with
        | .ok rest => text steps rest
        | .error e => .error e
      else if b < 0x20 then .error (.here .controlCharacter (b :: rest))
      else text steps rest

/-- An array or an object that has been opened and not yet closed. -/
inductive Frame where
  | array
  | object
deriving DecidableEq

def Frame.closing : Frame → UInt8
  | .array => byte ']'
  | .object => byte '\x7d'

def Frame.endFault : Frame → Fault
  | .array => .endInArray
  | .object => .endInObject

def Frame.separatorFault : Frame → Fault
  | .array => .expectedItemEnd
  | .object => .expectedMemberEnd

/-- Passes over a key and its colon; inside an array there is nothing to pass over. -/
def entry (frame : Frame) (bytes : Bytes) : Except Failure Bytes :=
  match frame with
  | .array => .ok bytes
  | .object =>
      match skipBlanks bytes with
      | [] => .error (.here .endInObject [])
      | b :: rest => do
          if b = byte '"' then
            let rest ← text (rest.length + 1) rest
            readColon rest
          else .error (.afterNext .keyNotText (b :: rest))

/-- What is left to do after a value: nothing, or to pass over the next value inside the frames
that are still open. -/
inductive Pending where
  | done (rest : Bytes)
  | value (frames : List Frame) (bytes : Bytes)

/-- Passes over the closing brackets and the comma after a value. -/
def afterValue : (frames : List Frame) → Bytes → Except Failure Pending
  | [], bytes => .ok (.done bytes)
  | frame :: frames, bytes =>
      match skipBlanks bytes with
      | [] => .error (.here frame.endFault [])
      | b :: rest =>
          if b = byte ',' then (entry frame rest).map (.value (frame :: frames))
          else if b = frame.closing then afterValue frames rest
          else .error (.afterNext frame.separatorFault (b :: rest))

/-- Passes over an opening bracket, and over the closing one if it comes next. -/
def enter (frame : Frame) (frames : List Frame) (bytes : Bytes) : Except Failure Pending :=
  match skipBlanks bytes with
  | [] => .error (.here frame.endFault [])
  | b :: rest =>
      if b = frame.closing then afterValue frames rest
      else (entry frame (b :: rest)).map (.value (frame :: frames))

def valueStart (frames : List Frame) (bytes : Bytes) : Except Failure Pending :=
  match skipBlanks bytes with
  | [] => .error (.here .endInValue [])
  | b :: rest =>
      if b = byte 'n' then readWord ['u', 'l', 'l'] rest >>= afterValue frames
      else if b = byte 't' then readWord ['r', 'u', 'e'] rest >>= afterValue frames
      else if b = byte 'f' then readWord ['a', 'l', 's', 'e'] rest >>= afterValue frames
      else if b = byte '-' then unsigned rest >>= afterValue frames
      else if (digit? b).isSome then unsigned (b :: rest) >>= afterValue frames
      else if b = byte '"' then text (rest.length + 1) rest >>= afterValue frames
      else if b = byte '[' then enter .array frames rest
      else if b = byte '\x7b' then enter .object frames rest
      else .error (.afterNext .expectedValue (b :: rest))

/-- Passes over values until no frame is open; `steps` bounds their number. -/
def values : (steps : Nat) → (frames : List Frame) → Bytes → Except Failure Bytes
  | 0, _, _ => .error (.here .endInValue [])
  | steps + 1, frames, bytes =>
      match valueStart frames bytes with
      | .ok (.done rest) => .ok rest
      | .ok (.value frames rest) => values steps frames rest
      | .error e => .error e

def value (bytes : Bytes) : Except Failure Bytes :=
  values (bytes.length + 1) [] bytes

end ClusterBlueprint.Json.Skip
