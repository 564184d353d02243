import ClusterBlueprint.Files.Tree
import ClusterBlueprint.OrderedMap
import ClusterBlueprint.Stack.Metadata

/-!
Registries of stacks. A registry answers a lookup and may change its own state while doing so. Two
registries are given: one over a map in memory, and one over a file tree in which the description of
a stack lies at `<root>/<name>/<version>/stack.json`.
-/

namespace ClusterBlueprint

/-- Why a registry cannot tell whether it knows a stack. -/
inductive RegistryFault where
  | unreadable (path : Files.Path) (failure : Files.Failure)
  | malformed (path : Files.Path) (error : Json.Error)
  | mislabelled (path : Files.Path) (name version : String)
  | other (reason : String)
deriving DecidableEq

/-- The texts of a fault and of what caused it, the outermost first. -/
def RegistryFault.causes : RegistryFault → List String
  | .unreadable path failure => [s!"read stack definition {path}", failure.message]
  | .malformed path error => [s!"parse stack definition {path}", error.message]
  | .mislabelled path name version => [s!"stack definition {path} declares {name}-{version}"]
  | .other reason => [reason]

def RegistryFault.message (fault : RegistryFault) : String :=
  fault.causes.headD ""

inductive LookupError where
  | notFound (id : StackId)
  | failed (fault : RegistryFault)
deriving DecidableEq

def LookupError.message : LookupError → String
  | .notFound id => s!"stack {id.display} not found"
  | .failed fault => fault.message

structure StackRegistry (σ : Type) where
  lookup : StackId → StateM σ (Except LookupError StackMetadata)

namespace StackRegistry

/-- Lets a registry work on a part of a greater state. -/
def within {σ τ : Type} (get : τ → σ) (set : σ → τ → τ) (r : StackRegistry σ) :
    StackRegistry τ where
  lookup id := fun t =>
    let (answer, s) := r.lookup id (get t)
    (answer, set s t)

end StackRegistry

abbrev StackShelf := OrderedMap StackId StackMetadata

namespace StackShelf

def add (shelf : StackShelf) (m : StackMetadata) : Except StackId.Invalid StackShelf :=
  m.id.map fun id => OrderedMap.insert shelf id m

def find (shelf : StackShelf) (id : StackId) : Except LookupError StackMetadata :=
  match OrderedMap.get? shelf id with
  | some m => .ok m
  | none => .error (.notFound id)

def registry : StackRegistry StackShelf where
  lookup id := fun shelf => (find shelf id, shelf)

end StackShelf

namespace StackFiles

def definitionFile : String := "stack.json"

def definitionPath (root : Files.Path) (id : StackId) : Files.Path :=
  ((Files.Path.join root id.name).join id.version).join definitionFile

/-- Finds the description of a stack. The description has to name the stack itself. -/
def find (root : Files.Path) (tree : Files.Tree) (id : StackId) :
    Except LookupError StackMetadata :=
  let path := definitionPath root id
  match tree.read path with
  | .error .notFound => .error (.notFound id)
  | .error failure => .error (.failed (.unreadable path failure))
  | .ok content =>
      match StackMetadata.decoder.parse content with
      | .error e => .error (.failed (.malformed path e))
      | .ok m =>
          if m.name = id.name ∧ m.version = id.version then .ok m
          else .error (.failed (.mislabelled path m.name m.version))

def registry (root : Files.Path) : StackRegistry Files.Tree where
  lookup id := fun tree => (find root tree id, tree)

end StackFiles

end ClusterBlueprint
