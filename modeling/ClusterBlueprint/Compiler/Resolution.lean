import ClusterBlueprint.Blueprint.Basic
import ClusterBlueprint.Stack.Registry

namespace ClusterBlueprint

inductive ResolutionError where
  | stackNotFound (blueprint : String) (stack : StackId)
  | stackUnresolved (blueprint : String) (stack : StackId) (fault : RegistryFault)
deriving DecidableEq

def ResolutionError.message : ResolutionError → String
  | .stackNotFound blueprint stack => s!"blueprint {blueprint}: stack {stack.display} not found"
  | .stackUnresolved blueprint stack fault =>
      s!"blueprint {blueprint}: unable to resolve stack {stack.display}: {fault.message}"

/-- A blueprint with the description of every stack that it declares. -/
structure ResolvedBlueprint where
  blueprint : Blueprint
  catalog : OrderedMap StackId StackMetadata
deriving DecidableEq

structure StagedComponent where
  hostGroup : HostGroup
  component : Component
  providers : List StackMetadata
deriving DecidableEq

namespace ResolvedBlueprint

def name (r : ResolvedBlueprint) : String :=
  r.blueprint.name

def stack? (r : ResolvedBlueprint) (id : StackId) : Option StackMetadata :=
  r.catalog.get? id

def declaredStacks (r : ResolvedBlueprint) : List (StackId × StackMetadata) :=
  r.blueprint.stackIds.values.filterMap fun id => (r.catalog.get? id).map (id, ·)

def stagedComponents (r : ResolvedBlueprint) : List StagedComponent :=
  r.blueprint.hostGroups.flatMap fun g =>
    g.components.map fun c =>
      ⟨g, c, (r.declaredStacks.map Prod.snd).filter fun m => m.hasComponent c.name⟩

/-- The components that no stack provides, with the names of their host groups. -/
def unknownComponents (r : ResolvedBlueprint) : List (String × String) :=
  (r.stagedComponents.filter fun s => s.providers.isEmpty).map fun s =>
    (s.hostGroup.name, s.component.name)

end ResolvedBlueprint

namespace StackRegistry

variable {σ : Type}

def resolveFor (r : StackRegistry σ) (blueprint : String) (id : StackId) :
    StateM σ (Except ResolutionError StackMetadata) := do
  match ← r.lookup id with
  | .ok m => pure (.ok m)
  | .error (.notFound _) => pure (.error (.stackNotFound blueprint id))
  | .error (.failed fault) => pure (.error (.stackUnresolved blueprint id fault))

/-- Looks up a stack on behalf of no blueprint. -/
def resolve (r : StackRegistry σ) (id : StackId) :
    StateM σ (Except ResolutionError StackMetadata) :=
  r.resolveFor "" id

/-- Looks up the stacks of a list that have not been found yet. -/
def resolveIds (r : StackRegistry σ) (blueprint : String) :
    List StackId → (found : OrderedMap StackId StackMetadata) →
      StateM σ (Except ResolutionError (OrderedMap StackId StackMetadata))
  | [], found => pure (.ok found)
  | id :: ids, found =>
      if found.contains id then resolveIds r blueprint ids found
      else do
        match ← r.resolveFor blueprint id with
        | .ok m => resolveIds r blueprint ids (found.insert id m)
        | .error e => pure (.error e)

def resolveAll (r : StackRegistry σ) (b : Blueprint) :
    StateM σ (Except ResolutionError ResolvedBlueprint) := do
  match ← r.resolveIds b.name b.stackIds.values ∅ with
  | .ok catalog => pure (.ok ⟨b, catalog⟩)
  | .error e => pure (.error e)

end StackRegistry

end ClusterBlueprint
