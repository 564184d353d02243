import ClusterBlueprint.Files.Tree
import ClusterBlueprint.Store.Entity

namespace ClusterBlueprint

inductive StoreError where
  | io (path : Files.Path) (failure : Files.Failure)
  | malformed (path : Files.Path) (error : Json.Error)
  | invalidName (name : String)
deriving DecidableEq

def StoreError.message : StoreError → String
  | .io path failure => s!"I/O error at {Text.quoted path}: {failure.message}"
  | .malformed path error => s!"entity JSON error at {Text.quoted path}: {error.message}"
  | .invalidName name => s!"blueprint name '{name}' cannot be used as a storage key"

/-- Whether entities may be stored under a name: it is not empty, has no slash or backslash, and is
neither a dot nor two dots. -/
def isStorableName (name : String) : Bool :=
  !name.isEmpty && name.toList.all (fun c => c != '/' && c != '\\') && name != "." && name != ".."

structure BlueprintStore (σ : Type) where
  find : String → StateM σ (Except StoreError (Option Entity))
  put : Entity → StateM σ (Except StoreError Unit)
  remove : String → StateM σ (Except StoreError Bool)
  names : StateM σ (Except StoreError (List String))

namespace BlueprintStore

/-- Lets an action work on a part of a greater state. -/
def actWithin {σ τ α : Type} (get : τ → σ) (set : σ → τ → τ) (action : StateM σ α) :
    StateM τ α := fun t =>
  let (answer, s) := action (get t)
  (answer, set s t)

def within {σ τ : Type} (get : τ → σ) (set : σ → τ → τ) (s : BlueprintStore σ) :
    BlueprintStore τ where
  find name := actWithin get set (s.find name)
  put entity := actWithin get set (s.put entity)
  remove name := actWithin get set (s.remove name)
  names := actWithin get set s.names

end BlueprintStore

end ClusterBlueprint
