import ClusterBlueprint.Json.Decoder

/-!
Property bags. A bag is a flat list of document fields, each under its plain name or under the name
with the category before it. A bag is folded into a document; of two spellings of a field the plain
one counts.
-/

namespace ClusterBlueprint

/-- Fields of a document under their plain or qualified names. -/
abbrev PropertyBag := OrderedMap String Json.Value

namespace PropertyBag

inductive Fault where
  | missingName
  | incompleteStack
deriving DecidableEq, Repr

def Fault.message : Fault → String
  | .missingName => "Blueprint name must be provided"
  | .incompleteStack => "stack_name and stack_version must both be provided as strings"

def qualify (category name : String) : String :=
  category ++ "/" ++ name

def category : String := "Blueprints"

def decoder : Json.Decoder PropertyBag :=
  .orderedMap .value

def stripFront : (front : List Char) → List Char → Option (List Char)
  | [], rest => some rest
  | _ :: _, [] => none
  | f :: front, c :: rest => if f = c then stripFront front rest else none

def plainName? (id : String) : Option String :=
  (stripFront (qualify category "").toList id.toList).map String.ofList

def fold (bag : PropertyBag) (fields : SortedMap Json.Value) (id : String) (value : Json.Value) :
    SortedMap Json.Value :=
  match plainName? id with
  | some field => if bag.contains field then fields else fields.insert field value
  | none => fields.insert id value

/-- The fields of a document that a bag gives, by their plain names. -/
def fields (bag : PropertyBag) : SortedMap Json.Value :=
  bag.entries.foldl (fun fields (id, value) => fold bag fields id value) ∅

/-- Replaces the name and version of a single stack by the list of stack ids, unless there is such a
list. -/
def foldStack (fields : SortedMap Json.Value) : Except Fault (SortedMap Json.Value) :=
  let name := fields.get? "stack_name"
  let version := fields.get? "stack_version"
  let others := (fields.erase "stack_name").erase "stack_version"
  if others.contains "stack_ids" then .ok others
  else
    match name, version with
    | none, none => .ok others
    | some (.text name), some (.text version) =>
        .ok (others.insert "stack_ids" (.array [.text (name ++ "-" ++ version)]))
    | _, _ => .error .incompleteStack

/-- The document that a bag makes. The name of the blueprint has to be a string that is not
empty. -/
def toDocument (bag : PropertyBag) : Except Fault Json.Value :=
  let fields := bag.fields
  match fields.get? "blueprint_name" with
  | some (.text name) =>
      if name.isEmpty then .error .missingName
      else (foldStack fields).map fun fields => .object fields.entries
  | _ => .error .missingName

end PropertyBag

end ClusterBlueprint
