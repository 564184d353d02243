import ClusterBlueprint.Json.Failure

namespace ClusterBlueprint.Json.Token

def greatestSignificand : Nat := 0xFFFFFFFFFFFFFFFF

def greatestExponent : Nat := 0x7FFFFFFF

/-- Appends digits to a number while the result stays within `limit`. Gives the number, how many
digits it took and what follows them. -/
def gatherDigits (limit value count : Nat) : Bytes → Nat × Nat × Bytes
  | [] => (value, count, [])
  | b :: rest =>
      match digit? b with
      | some d =>
          if value * 10 + d ≤ limit then gatherDigits limit (value * 10 + d) (count + 1) rest
          else (value, count, b :: rest)
      | none => (value, count, b :: rest)

def passDigits : Bytes → Nat × Bytes
  | [] => (0, [])
  | b :: rest =>
      if (digit? b).isSome then
        let (count, left) := passDigits rest
        (count + 1, left)
      else (0, b :: rest)

def scaled (negative : Bool) (significand : Nat) (power : Int) (rest : Bytes) :
    Except Failure (Number × Bytes) :=
  match Double.ofDecimal negative significand power with
  | some x => .ok (.double x, rest)
  | none => .error (.here .numberOutOfRange rest)

def startsWithExponent : Bytes → Bool
  | b :: _ => b = byte 'e' || b = byte 'E'
  | [] => false

def readSign : Bytes → Bool × Bytes
  | b :: rest =>
      if b = byte '+' then (false, rest)
      else if b = byte '-' then (true, rest)
      else (false, b :: rest)
  | [] => (false, [])

/-- Reads the exponent after its letter. An exponent beyond every representable one decides the
result at once: too great a number, or zero. -/
def readExponent (negative : Bool) (significand : Nat) (power : Int) (bytes : Bytes) :
    Except Failure (Number × Bytes) :=
  let (down, rest) := readSign bytes
  match rest with
  | [] => .error (.here .endInValue [])
  | b :: rest =>
      match digit? b with
      | none => .error (.here .invalidNumber rest)
      | some first =>
          let (exponent, _, rest) := gatherDigits greatestExponent first 1 rest
          if startsWithDigit rest then
            if significand ≠ 0 && !down then .error (.here .numberOutOfRange (rest.drop 1))
            else .ok (.double (.zero negative), (passDigits rest).2)
          else
            scaled negative significand (if down then power - exponent else power + exponent) rest

def readScale (negative : Bool) (significand : Nat) (power : Int) (bytes : Bytes) :
    Except Failure (Number × Bytes) :=
  if startsWithExponent bytes then readExponent negative significand power (bytes.drop 1)
  else scaled negative significand power bytes

def readFraction (negative : Bool) (significand : Nat) (power : Int) (bytes : Bytes) :
    Except Failure (Number × Bytes) :=
  let (significand, count, rest) := gatherDigits greatestSignificand significand 0 bytes
  if count = 0 && !startsWithDigit rest then
    match rest with
    | [] => .error (.here .endInValue [])
    | rest => .error (.afterNext .invalidNumber rest)
  else readScale negative significand (power - count) (passDigits rest).2

/-- The number of an integer part that is followed by neither a fraction nor an exponent. Minus
zero and what fits no word are floating-point numbers. -/
def wholeNumber (negative : Bool) (significand : Nat) (rest : Bytes) :
    Except Failure (Number × Bytes) :=
  if negative && significand = 0 then .ok (.double (.zero true), rest)
  else
    match Number.ofInt? (if negative then -significand else significand) with
    | some n => .ok (n, rest)
    | none => scaled negative significand 0 rest

/-- Reads what follows the integer part, of which `extra` digits were not gathered. -/
def readAfterInteger (negative : Bool) (significand extra : Nat) (bytes : Bytes) :
    Except Failure (Number × Bytes) :=
  match bytes with
  | b :: rest =>
      if b = byte '.' then readFraction negative significand extra rest
      else if startsWithExponent bytes || extra ≠ 0 then
        readScale negative significand extra bytes
      else wholeNumber negative significand bytes
  | [] =>
      if extra ≠ 0 then readScale negative significand extra []
      else wholeNumber negative significand []

def readUnsigned (negative : Bool) : Reader Number
  | [] => .error (.here .endInValue [])
  | b :: rest =>
      match digit? b with
      | none => .error (.here .invalidNumber rest)
      | some 0 =>
          if startsWithDigit rest then .error (.afterNext .invalidNumber rest)
          else readAfterInteger negative 0 0 rest
      | some first =>
          let (significand, _, rest) := gatherDigits greatestSignificand first 1 rest
          let (extra, rest) := passDigits rest
          readAfterInteger negative significand extra rest

def readNumber : Reader Number
  | b :: rest => if b = byte '-' then readUnsigned true rest else readUnsigned false (b :: rest)
  | [] => readUnsigned false []

end ClusterBlueprint.Json.Token
