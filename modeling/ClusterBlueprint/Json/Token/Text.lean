import ClusterBlueprint.Json.Failure

namespace ClusterBlueprint.Json.Token

def hexDigit? (b : UInt8) : Option Nat :=
  if byte '0' ≤ b && b ≤ byte '9' then some (b.toNat - 0x30)
  else if byte 'a' ≤ b && b ≤ byte 'f' then some (b.toNat - 0x57)
  else if byte 'A' ≤ b && b ≤ byte 'F' then some (b.toNat - 0x37)
  else none

def readHex : Reader Nat
  | a :: b :: c :: d :: rest =>
      match hexDigit? a, hexDigit? b, hexDigit? c, hexDigit? d with
      | some a, some b, some c, some d => .ok (((a * 16 + b) * 16 + c) * 16 + d, rest)
      | _, _, _, _ => .error (.here .invalidEscape rest)
  | _ => .error (.here .endInText [])

def isLeadingSurrogate (n : Nat) : Bool :=
  0xD800 ≤ n && n ≤ 0xDBFF

def isTrailingSurrogate (n : Nat) : Bool :=
  0xDC00 ≤ n && n ≤ 0xDFFF

def readPairByte (expected : UInt8) : Bytes → Except Failure Bytes
  | [] => .error (.here .endInText [])
  | b :: rest =>
      if b = expected then .ok rest else .error (.here .truncatedSurrogatePair rest)

/-- Reads a hexadecimal escape after `\u`, and the second half of a surrogate pair with it. -/
def readUnicodeEscape (bytes : Bytes) : Except Failure (Char × Bytes) := do
  let (unit, rest) ← readHex bytes
  if isTrailingSurrogate unit then .error (.here .loneSurrogate rest)
  else if isLeadingSurrogate unit then
    let rest ← readPairByte (byte '\\') rest
    let rest ← readPairByte (byte 'u') rest
    let (second, rest) ← readHex rest
    if isTrailingSurrogate second then
      .ok (Char.ofNat ((unit - 0xD800) * 0x400 + (second - 0xDC00) + 0x10000), rest)
    else .error (.here .loneSurrogate rest)
  else .ok (Char.ofNat unit, rest)

def simpleEscape? (b : UInt8) : Option Char :=
  if b = byte '"' then some '"'
  else if b = byte '\\' then some '\\'
  else if b = byte '/' then some '/'
  else if b = byte 'b' then some '\x08'
  else if b = byte 'f' then some '\x0c'
  else if b = byte 'n' then some '\n'
  else if b = byte 'r' then some '\r'
  else if b = byte 't' then some '\t'
  else none

def readEscape : Reader Char
  | [] => .error (.here .endInText [])
  | b :: rest =>
      match simpleEscape? b with
      | some c => .ok (c, rest)
      | none => if b = byte 'u' then readUnicodeEscape rest else .error (.here .invalidEscape rest)

/-- Gathers the bytes up to the closing quote, those gathered so far in reverse; `steps` bounds the
number of characters. -/
def gatherText : (steps : Nat) → (gathered : Bytes) → Reader Bytes
  | 0, _, _ => .error (.here .endInText [])
  | _ + 1, _, [] => .error (.here .endInText [])
  | steps + 1, gathered, b :: rest =>
      if b = byte '"' then .ok (gathered.reverse, rest)
      else if b = byte '\\' then
        match readEscape rest with
        | .ok (c, rest) => gatherText steps ((Utf8.encodeChar c).reverse ++ gathered) rest
        | .error e => .error e
      else if b < 0x20 then .error (.here .controlCharacter rest)
      else gatherText steps (b :: gathered) rest

/-- Reads a string after its opening quote. Of a string that is not UTF-8 the place is as far before
its end as the first wrong byte is before the end of what was gathered. -/
def readText (bytes : Bytes) : Except Failure (String × Bytes) := do
  let (gathered, rest) ← gatherText (bytes.length + 1) [] bytes
  match Utf8.decode gathered with
  | .ok s => .ok (s, rest)
  | .error offset => .error (.located .invalidUtf8 (rest.length + (gathered.length - offset)))

end ClusterBlueprint.Json.Token
