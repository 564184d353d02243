import ClusterBlueprint.Json.Shortest
import ClusterBlueprint.Json.Value

namespace ClusterBlueprint.Json

/-- Where blanks stand in a text: nowhere, or a new line indented by two for each item and
member. -/
inductive Layout where
  | compact
  | indented
deriving DecidableEq, Repr

def Layout.newline : Layout → (level : Nat) → List Char
  | .compact, _ => []
  | .indented, level => '\n' :: List.replicate (2 * level) ' '

def Layout.colon : Layout → List Char
  | .compact => [':']
  | .indented => [':', ' ']

def hexDigit (n : Nat) : Char :=
  Nat.digitChar n

def escapeChar (c : Char) : List Char :=
  if c = '"' then ['\\', '"']
  else if c = '\\' then ['\\', '\\']
  else if c = '\x08' then ['\\', 'b']
  else if c = '\t' then ['\\', 't']
  else if c = '\n' then ['\\', 'n']
  else if c = '\x0c' then ['\\', 'f']
  else if c = '\r' then ['\\', 'r']
  else if c.toNat < 0x20 then
    ['\\', 'u', '0', '0', hexDigit (c.toNat / 16), hexDigit (c.toNat % 16)]
  else [c]

def renderText (s : String) : List Char :=
  '"' :: s.toList.flatMap escapeChar ++ ['"']

def renderInt (n : Int) : List Char :=
  (if n < 0 then ['-'] else []) ++ Nat.toDigits 10 n.natAbs

namespace Number

def render : Number → List Char
  | .whole value _ => renderInt value
  | .double value => value.render

def toText (n : Number) : String :=
  String.ofList n.render

end Number

namespace Value

mutual

def render (layout : Layout) (level : Nat) : Value → List Char
  | .null => ['n', 'u', 'l', 'l']
  | .bool true => ['t', 'r', 'u', 'e']
  | .bool false => ['f', 'a', 'l', 's', 'e']
  | .number n => n.render
  | .text s => renderText s
  | .array [] => ['[', ']']
  | .array (item :: items) =>
      '[' :: layout.newline (level + 1) ++ render layout (level + 1) item ++
        renderItems layout level items
  | .object [] => ['\x7b', '\x7d']
  | .object ((key, value) :: members) =>
      '\x7b' :: layout.newline (level + 1) ++ renderText key ++ layout.colon ++
        render layout (level + 1) value ++ renderMembers layout level members

/-- The items after the first, and the closing bracket. -/
def renderItems (layout : Layout) (level : Nat) : List Value → List Char
  | [] => layout.newline level ++ [']']
  | item :: items =>
      ',' :: layout.newline (level + 1) ++ render layout (level + 1) item ++
        renderItems layout level items

/-- The members after the first, and the closing brace. -/
def renderMembers (layout : Layout) (level : Nat) : List (String × Value) → List Char
  | [] => layout.newline level ++ ['\x7d']
  | (key, value) :: members =>
      ',' :: layout.newline (level + 1) ++ renderText key ++ layout.colon ++
        render layout (level + 1) value ++ renderMembers layout level members

end

def toText (v : Value) (layout : Layout) : String :=
  String.ofList (v.render layout 0)

def compact (v : Value) : String :=
  v.toText .compact

def pretty (v : Value) : String :=
  v.toText .indented

end Value

end ClusterBlueprint.Json
