import ClusterBlueprint.Json.Decoder
import ClusterBlueprint.Text.Blank

namespace ClusterBlueprint

namespace StackId

/-- Whether a text may be a version: it is not empty and has no blank character. -/
def isVersion (s : String) : Bool :=
  !s.toList.isEmpty && s.toList.all fun c => !Text.isBlank c

/-- Whether a text may be a name: it may be a version and has no dash. -/
def isName (s : String) : Bool :=
  isVersion s && s.toList.all fun c => c != '-'

end StackId

/-- A name and a version, written as one text with a dash between them. A text is split at its first
dash, so a version may contain dashes and a name may not. -/
structure StackId where
  name : String
  version : String
  isName_name : StackId.isName name = true
  isVersion_version : StackId.isVersion version = true
deriving DecidableEq

namespace StackId

structure Invalid where
  value : String
deriving DecidableEq

def Invalid.message (e : Invalid) : String :=
  s!"invalid stack id '{e.value}': expected <name>-<version>"

def join (name version : String) : String :=
  name ++ "-" ++ version

def display (id : StackId) : String :=
  join id.name id.version

def make (name version : String) : Except Invalid StackId :=
  if hname : isName name = true then
    if hversion : isVersion version = true then .ok ⟨name, version, hname, hversion⟩
    else .error ⟨join name version⟩
  else .error ⟨join name version⟩

def splitAtDash : List Char → Option (List Char × List Char)
  | [] => none
  | c :: rest =>
      if c = '-' then some ([], rest)
      else (splitAtDash rest).map fun (name, version) => (c :: name, version)

def parse (value : String) : Except Invalid StackId :=
  match splitAtDash value.toList with
  | none => .error ⟨value⟩
  | some (name, version) =>
      match make (String.ofList name) (String.ofList version) with
      | .ok id => .ok id
      | .error _ => .error ⟨value⟩

/-- Whether an id comes no later than another: names are compared first, then versions, code point
by code point. -/
def le (a b : StackId) : Bool :=
  a.name < b.name || (a.name == b.name && a.version ≤ b.version)

def sort (ids : List StackId) : List StackId :=
  ids.mergeSort le

def countRepeats : List StackId → Nat
  | a :: b :: rest => (if a = b then 1 else 0) + countRepeats (b :: rest)
  | _ => 0

def describe (id : StackId) : String :=
  "StackId \x7b name: " ++ Text.quoted id.name ++ ", version: " ++ Text.quoted id.version ++
    " \x7d"

def toValue (id : StackId) : Json.Value :=
  .text id.display

def decoder : Json.Decoder StackId :=
  Json.Decoder.text.refine fun s => (parse s).mapError Invalid.message

end StackId

end ClusterBlueprint
