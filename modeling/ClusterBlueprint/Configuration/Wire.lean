import ClusterBlueprint.Configuration
import ClusterBlueprint.Json.Record

/-!
Configurations in documents. A document has a list of objects whose members are groups. A group has
its properties, and its attributes by attribute name first, so that the two inner keys change their
places on the way in and out. Later entries of the list are laid over earlier ones.
-/

namespace ClusterBlueprint

/-- What a document says about a group: properties, and attributes by name and then by key. -/
structure GroupEntry where
  properties : OrderedMap String String
  attributes : OrderedMap String (OrderedMap String String)
deriving DecidableEq

namespace GroupEntry

def decoder : Json.Decoder GroupEntry :=
  .record "ConfigTypeEntry"
    (.cons "properties" (.orderedMap .property) (some ∅) <|
      .cons "properties_attributes" (.orderedMap (.orderedMap .property)) (some ∅) .nil)
    fun (properties, attributes, ()) => ⟨properties, attributes⟩

def textMembers (m : OrderedMap String String) : Json.Value :=
  .object (m.entries.map fun (key, value) => (key, .text value))

def toValue (e : GroupEntry) : Json.Value :=
  let properties :=
    if e.properties.isEmpty then [] else [("properties", textMembers e.properties)]
  let attributes :=
    if e.attributes.isEmpty then []
    else
      [("properties_attributes",
        Json.Value.object
          (e.attributes.entries.map fun (name, byKey) => (name, textMembers byKey)))]
  .object (properties ++ attributes)

/-- Exchanges the two keys of attributes; names and keys stand in the order in which they are
met. -/
def transpose (attributes : OrderedMap String (OrderedMap String String)) :
    OrderedMap String (OrderedMap String String) :=
  attributes.entries.foldl
    (fun m (outer, inner) =>
      inner.entries.foldl
        (fun m (key, value) => m.alter key fun old => (old.getD ∅).insert outer value) m) ∅

end GroupEntry

namespace Configuration

def groupEntry (c : Configuration) (group : String) (properties : PropertyMap) : GroupEntry :=
  ⟨properties, GroupEntry.transpose ((c.attributes.get? group).getD ∅)⟩

/-- A configuration as a list of objects with one group each. -/
def toValue (c : Configuration) : Json.Value :=
  .array (c.properties.entries.map fun (group, properties) =>
    .object [(group, (c.groupEntry group properties).toValue)])

def addEntry (c : Configuration) (group : String) (e : GroupEntry) : Configuration :=
  let c := e.properties.entries.foldl (fun c (key, value) => c.setProperty group key value)
    (c.addGroup group)
  e.attributes.entries.foldl
    (fun c (name, byKey) =>
      byKey.entries.foldl (fun c (key, value) => c.putAttribute group key name value) c) c

/-- The configuration of a list of objects, later groups laid over earlier ones. -/
def ofEntries (entries : List (OrderedMap String GroupEntry)) : Configuration :=
  entries.foldl
    (fun c entry => entry.entries.foldl (fun c (group, e) => c.addEntry group e) c) ∅

def decoder : Json.Decoder Configuration :=
  .map ofEntries (.list (.orderedMap GroupEntry.decoder))

end Configuration

end ClusterBlueprint
