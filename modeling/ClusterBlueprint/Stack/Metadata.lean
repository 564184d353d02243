import ClusterBlueprint.Json.Record
import ClusterBlueprint.StackId

namespace ClusterBlueprint

/-- What is known about a version of a stack: the components its services provide and the property
keys of its configuration types. -/
structure StackMetadata where
  name : String
  version : String
  services : SortedMap SortedSet
  configTypes : SortedMap SortedSet
deriving DecidableEq

namespace StackMetadata

/-- The description of a stack of which nothing is known. -/
def ofId (id : StackId) : StackMetadata :=
  ⟨id.name, id.version, ∅, ∅⟩

def withService (m : StackMetadata) (service : String) (components : List String) :
    StackMetadata :=
  { m with services := m.services.alter service fun old => (old.getD ∅).insertAll components }

def withConfigType (m : StackMetadata) (configType : String) (keys : List String) :
    StackMetadata :=
  { m with
    configTypes := m.configTypes.alter configType fun old => (old.getD ∅).insertAll keys }

def id (m : StackMetadata) : Except StackId.Invalid StackId :=
  StackId.make m.name m.version

def hasComponent (m : StackMetadata) (component : String) : Bool :=
  m.services.entries.any fun (_, components) => components.contains component

/-- The first service, in ascending order, that provides a component. -/
def serviceOf (m : StackMetadata) (component : String) : Option String :=
  (m.services.entries.find? fun (_, components) => components.contains component).map Prod.fst

def configKeys (m : StackMetadata) (configType : String) : Option SortedSet :=
  m.configTypes.get? configType

def catalogValue (catalog : SortedMap SortedSet) : Json.Value :=
  .object (catalog.entries.map fun (key, items) =>
    (key, .array (items.toList.map Json.Value.text)))

def toValue (m : StackMetadata) : Json.Value :=
  .object [("name", .text m.name), ("version", .text m.version),
    ("services", catalogValue m.services), ("config_types", catalogValue m.configTypes)]

def decoder : Json.Decoder StackMetadata :=
  .record "StackMetadata"
    (.cons "name" .text none <|
      .cons "version" .text none <|
      .cons "services" (.sortedMap .sortedSet) (some ∅) <|
      .cons "config_types" (.sortedMap .sortedSet) (some ∅) .nil)
    fun (name, version, services, configTypes, ()) => ⟨name, version, services, configTypes⟩

end StackMetadata

end ClusterBlueprint
