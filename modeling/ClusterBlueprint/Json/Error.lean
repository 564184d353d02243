import ClusterBlueprint.Json.Printer
import ClusterBlueprint.Text.Quoted
import ClusterBlueprint.Text.Utf8

namespace ClusterBlueprint.Json

inductive Kind where
  | null
  | bool (value : Bool)
  | whole (value : Int)
  | double (value : Double)
  | text (value : String)
  | array
  | object
deriving DecidableEq

inductive Expectation where
  | text
  | array
  | object
  | null
  | textOrObject
  | record (name : String)
deriving DecidableEq

/-- A reason for which a text or a value is refused. -/
inductive Fault where
  | endInValue
  | endInText
  | endInArray
  | endInObject
  | expectedValue
  | expectedIdent
  | expectedColon
  | expectedItemEnd
  | expectedMemberEnd
  | keyNotText
  | trailingComma
  | trailingCharacters
  | tooDeep
  | invalidNumber
  | numberOutOfRange
  | invalidEscape
  | controlCharacter
  | invalidUtf8
  | truncatedSurrogatePair
  | loneSurrogate
  | wrongKind (found : Kind) (expected : Expectation)
  /-- an object of no or several members where a variant is expected -/
  | notSingleMember
  | unknownVariant (name : String) (known : List String)
  /-- a record written as an array that ends before a required field -/
  | tooFewItems (count : Nat) (record : String) (fields : Nat)
  | tooManyItems (count : Nat)
  | missingField (name : String)
  | duplicateField (name : String)
  /-- neither a string nor a number nor a boolean where a property value is expected -/
  | notPropertyValue
  | refused (reason : String)
deriving DecidableEq

def Kind.describe : Kind → String
  | .null => "null"
  | .bool true => "boolean `true`"
  | .bool false => "boolean `false`"
  | .whole value => "integer `" ++ String.ofList (renderInt value) ++ "`"
  | .double value => "floating point `" ++ String.ofList value.render ++ "`"
  | .text value => "string " ++ Text.quoted value
  | .array => "sequence"
  | .object => "map"

def Expectation.describe : Expectation → String
  | .text => "a string"
  | .array => "a sequence"
  | .object => "a map"
  | .null => "unit"
  | .textOrObject => "string or map"
  | .record name => "struct " ++ name

def Number.kind : Number → Kind
  | .whole value _ => .whole value
  | .double value => .double value

def Value.kind : Value → Kind
  | .null => .null
  | .bool value => .bool value
  | .number value => value.kind
  | .text value => .text value
  | .array _ => .array
  | .object _ => .object

def Fault.message : Fault → String
  | .endInValue => "EOF while parsing a value"
  | .endInText => "EOF while parsing a string"
  | .endInArray => "EOF while parsing a list"
  | .endInObject => "EOF while parsing an object"
  | .expectedValue => "expected value"
  | .expectedIdent => "expected ident"
  | .expectedColon => "expected `:`"
  | .expectedItemEnd => "expected `,` or `]`"
  | .expectedMemberEnd => "expected `,` or `\x7d`"
  | .keyNotText => "key must be a string"
  | .trailingComma => "trailing comma"
  | .trailingCharacters => "trailing characters"
  | .tooDeep => "recursion limit exceeded"
  | .invalidNumber => "invalid number"
  | .numberOutOfRange => "number out of range"
  | .invalidEscape => "invalid escape"
  | .controlCharacter => "control character (\\u0000-\\u001F) found while parsing a string"
  | .invalidUtf8 => "invalid unicode code point"
  | .truncatedSurrogatePair => "unexpected end of hex escape"
  | .loneSurrogate => "lone leading surrogate in hex escape"
  | .wrongKind found expected =>
      "invalid type: " ++ found.describe ++ ", expected " ++ expected.describe
  | .notSingleMember => "invalid value: map, expected map with a single key"
  | .unknownVariant name known =>
      "unknown variant `" ++ name ++ "`, expected one of " ++
        ", ".intercalate (known.map fun v => "`" ++ v ++ "`")
  | .tooFewItems count record fields =>
      s!"invalid length {count}, expected struct {record} with {fields} elements"
  | .tooManyItems count => s!"invalid length {count}, expected fewer elements in array"
  | .missingField name => "missing field `" ++ name ++ "`"
  | .duplicateField name => "duplicate field `" ++ name ++ "`"
  | .notPropertyValue => "data did not match any variant of untagged enum PropertyValue"
  | .refused reason => reason

/-- A place in a text: its line, counted from one, and how many bytes of the line come before
it. -/
structure Position where
  line : Nat
  column : Nat
deriving DecidableEq, Repr

/-- The place before which a text is followed by `left` more bytes. -/
def Position.before (text : Bytes) (left : Nat) : Position :=
  let passed := text.take (text.length - left)
  { line := 1 + passed.count 0x0A
    column := (passed.reverse.takeWhile (· != 0x0A)).length }

/-- A refusal, with its place when it is known. -/
structure Error where
  fault : Fault
  position : Option Position
deriving DecidableEq

def Fault.withoutPosition (fault : Fault) : Error :=
  ⟨fault, none⟩

def Error.message (e : Error) : String :=
  match e.position with
  | some p => e.fault.message ++ s!" at line {p.line} column {p.column}"
  | none => e.fault.message

end ClusterBlueprint.Json
