import ClusterBlueprint.OrderedMap

namespace ClusterBlueprint

abbrev PropertyMap := OrderedMap String String

/-- The attributes of a group: by property key, then by attribute name. -/
abbrev AttributeMap := OrderedMap String (OrderedMap String String)

structure Configuration where
  properties : OrderedMap String PropertyMap
  attributes : OrderedMap String AttributeMap
deriving DecidableEq

namespace Configuration

def empty : Configuration := ⟨∅, ∅⟩

instance : EmptyCollection Configuration := ⟨empty⟩

instance : Inhabited Configuration := ⟨empty⟩

def isEmpty (c : Configuration) : Bool :=
  c.properties.isEmpty && c.attributes.isEmpty

def groups (c : Configuration) : List String :=
  c.properties.keys

def group? (c : Configuration) (group : String) : Option PropertyMap :=
  c.properties.get? group

def property? (c : Configuration) (group key : String) : Option String :=
  (c.properties.get? group).bind fun properties => properties.get? key

def attribute? (c : Configuration) (group key name : String) : Option String :=
  (c.attributes.get? group).bind fun attributes =>
    (attributes.get? key).bind fun byName => byName.get? name

def addGroup (c : Configuration) (group : String) : Configuration :=
  { c with properties := c.properties.alter group fun old => old.getD ∅ }

def setProperty (c : Configuration) (group key value : String) : Configuration :=
  { c with properties := c.properties.alter group fun old => (old.getD ∅).insert key value }

/-- Sets an attribute where its group is known to exist. -/
def putAttribute (c : Configuration) (group key name value : String) : Configuration :=
  { c with
    attributes := c.attributes.alter group fun old =>
      (old.getD ∅).alter key fun old => (old.getD ∅).insert name value }

/-- Sets an attribute; its group comes to exist with no properties if there is none. -/
def setAttribute (c : Configuration) (group key name value : String) : Configuration :=
  (c.addGroup group).putAttribute group key name value

def overlayProperties (base upper : PropertyMap) : PropertyMap :=
  base.insertAll upper.entries

/-- Lays the attributes of a group over others, attribute by attribute. -/
def overlayAttributes (base upper : AttributeMap) : AttributeMap :=
  upper.entries.foldl
    (fun m (key, byName) => m.alter key fun old => (old.getD ∅).insertAll byName.entries) base

def mergedWith (base upper : Configuration) : Configuration where
  properties := upper.properties.entries.foldl
    (fun m (group, properties) =>
      m.alter group fun old => overlayProperties (old.getD ∅) properties) base.properties
  attributes := upper.attributes.entries.foldl
    (fun m (group, attributes) =>
      m.alter group fun old => overlayAttributes (old.getD ∅) attributes) base.attributes

/-- Whether two configurations hold the same groups, properties and attributes in any order. -/
def agrees (a b : Configuration) : Bool :=
  a.properties.agrees (OrderedMap.agrees (· == ·)) b.properties &&
    a.attributes.agrees (OrderedMap.agrees (OrderedMap.agrees (· == ·))) b.attributes

end Configuration

end ClusterBlueprint
