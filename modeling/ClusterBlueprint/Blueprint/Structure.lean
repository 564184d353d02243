import ClusterBlueprint.Blueprint.Basic
import ClusterBlueprint.Blueprint.Wire

namespace ClusterBlueprint

/-- A violation of the structure of a blueprint, with the names at its place. -/
inductive Violation where
  | missingName
  | invalidName (name : String)
  | missingStackIds (blueprint : String)
  | unnamedHostGroup (blueprint : String)
  | duplicateHostGroup (blueprint hostGroup : String)
  | unnamedComponent (blueprint hostGroup : String)
  | duplicateComponent (blueprint hostGroup component : String)
deriving DecidableEq, Repr

def Violation.message : Violation → String
  | .missingName => "blueprint name must be provided"
  | .invalidName name => s!"blueprint name '{name}' contains special characters"
  | .missingStackIds blueprint => s!"blueprint {blueprint} does not declare any stack ids"
  | .unnamedHostGroup blueprint => s!"blueprint {blueprint} has a host group without a name"
  | .duplicateHostGroup blueprint hostGroup =>
      s!"blueprint {blueprint} has duplicate host group {hostGroup}"
  | .unnamedComponent blueprint hostGroup =>
      s!"blueprint {blueprint} host group {hostGroup} has a component without a name"
  | .duplicateComponent blueprint hostGroup component =>
      s!"blueprint {blueprint} host group {hostGroup} has duplicate component {component}"

namespace Blueprint

def isNameStart (c : Char) : Bool :=
  c.isAlphanum

def isNameRest (c : Char) : Bool :=
  c.isAlphanum || c == '_' || c == '.' || c == '-'

def isValidName (name : String) : Bool :=
  match name.toList with
  | [] => false
  | c :: rest => isNameStart c && rest.all isNameRest

/-- Checks the components of a host group, given the names of those before. -/
def checkComponents (blueprint hostGroup : String) :
    (seen : List String) → List Component → Except Violation Unit
  | _, [] => .ok ()
  | seen, c :: rest =>
      if Text.isBlankText c.name then .error (.unnamedComponent blueprint hostGroup)
      else if c.name ∈ seen then .error (.duplicateComponent blueprint hostGroup c.name)
      else checkComponents blueprint hostGroup (c.name :: seen) rest

def checkHostGroups (blueprint : String) :
    (seen : List String) → List HostGroup → Except Violation Unit
  | _, [] => .ok ()
  | seen, g :: rest =>
      if Text.isBlankText g.name then .error (.unnamedHostGroup blueprint)
      else if g.name ∈ seen then .error (.duplicateHostGroup blueprint g.name)
      else
        match checkComponents blueprint g.name [] g.components with
        | .error e => .error e
        | .ok () => checkHostGroups blueprint (g.name :: seen) rest

/-- The first violation of the structure of a blueprint, if there is one. -/
def check (b : Blueprint) : Except Violation Unit :=
  if Text.isBlankText b.name then .error .missingName
  else if !isValidName b.name then .error (.invalidName b.name)
  else if b.stackIds.isEmpty then .error (.missingStackIds b.name)
  else checkHostGroups b.name [] b.hostGroups

def fillComponent (c : Component) : Component :=
  { c with action := some c.effectiveAction }

/-- The cardinality of a host group, the standard one where it is missing or blank. -/
def fillCardinality (cardinality : Option String) : String :=
  match cardinality with
  | some s => if Text.isBlankText s then HostGroup.standardCardinality else s
  | none => HostGroup.standardCardinality

def fillHostGroup (g : HostGroup) : HostGroup :=
  { g with
    cardinality := some (fillCardinality g.cardinality)
    components := g.components.map fillComponent }

/-- Puts each stack id under its written form once, and fills what host groups leave out. -/
def fill (b : Blueprint) : Blueprint :=
  { b with
    stackIds := stackMap b.stackIds.values
    hostGroups := b.hostGroups.map fillHostGroup }

/-- The normal form of a blueprint, or the first violation of its structure. -/
def normalize (b : Blueprint) : Except Violation Blueprint :=
  match b.check with
  | .ok () => .ok b.fill
  | .error e => .error e

end Blueprint

end ClusterBlueprint
