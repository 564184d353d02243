import ClusterBlueprint.Configuration
import ClusterBlueprint.Json.Value
import ClusterBlueprint.StackId

namespace ClusterBlueprint

inductive ProvisionAction where
  | installOnly
  | startOnly
  | installAndStart
deriving DecidableEq, Repr

namespace ProvisionAction

def name : ProvisionAction → String
  | .installOnly => "INSTALL_ONLY"
  | .startOnly => "START_ONLY"
  | .installAndStart => "INSTALL_AND_START"

def all : List ProvisionAction := [.installOnly, .startOnly, .installAndStart]

def standard : ProvisionAction := .installAndStart

end ProvisionAction

structure Component where
  name : String
  action : Option ProvisionAction
deriving DecidableEq

def Component.effectiveAction (c : Component) : ProvisionAction :=
  c.action.getD .standard

/-- A group of hosts that carry the same components. The cardinality says how many hosts there may
be and is not interpreted. -/
structure HostGroup where
  name : String
  kind : Option String
  cardinality : Option String
  components : List Component
  configuration : Configuration
deriving DecidableEq

namespace HostGroup

def standardKind : String := "standard"

def standardCardinality : String := "1+"

def ofName (name : String) : HostGroup :=
  ⟨name, none, none, [], ∅⟩

def effectiveKind (g : HostGroup) : String :=
  g.kind.getD standardKind

def component? (g : HostGroup) (name : String) : Option Component :=
  g.components.find? fun c => c.name == name

end HostGroup

inductive SecurityType where
  | none
  | kerberos
  | custom
deriving DecidableEq, Repr

namespace SecurityType

def name : SecurityType → String
  | .none => "NONE"
  | .kerberos => "KERBEROS"
  | .custom => "CUSTOM"

def all : List SecurityType := [.none, .kerberos, .custom]

end SecurityType

/-- The security of a cluster, with a reference to a descriptor kept elsewhere. -/
structure Security where
  type : SecurityType
  descriptorReference : Option String
deriving DecidableEq

namespace Security

def unsecured : Security := ⟨.none, Option.none⟩

def kerberos (descriptorReference : String) : Security :=
  ⟨.kerberos, some descriptorReference⟩

end Security

/-- An entry of the settings, which is handed on as it is. -/
abbrev SettingsEntry := OrderedMap String Json.Value

/-- A cluster blueprint. The stack ids stand under keys; in a normalized blueprint the key of an id
is its written form. -/
structure Blueprint where
  name : String
  stackIds : OrderedMap String StackId
  hostGroups : List HostGroup
  configuration : Configuration
  settings : List SettingsEntry
  security : Security
deriving DecidableEq

namespace Blueprint

def ofName (name : String) : Blueprint :=
  ⟨name, ∅, [], ∅, [], .unsecured⟩

def withStack (b : Blueprint) (id : StackId) : Blueprint :=
  { b with stackIds := b.stackIds.insert id.display id }

def hostGroup? (b : Blueprint) (name : String) : Option HostGroup :=
  b.hostGroups.find? fun g => g.name == name

/-- The configuration of the blueprint with that of a host group laid over it. -/
def effectiveConfiguration (b : Blueprint) (hostGroup : String) : Option Configuration :=
  (b.hostGroup? hostGroup).map fun g => b.configuration.mergedWith g.configuration

def sameSettings (a b : SettingsEntry) : Bool :=
  a.agrees Json.Value.sameValue b

/-- Whether two lists have the same length and are related item by item. -/
def pairwiseAgree {α : Type} (same : α → α → Bool) : List α → List α → Bool
  | [], [] => true
  | a :: as, b :: bs => same a b && pairwiseAgree same as bs
  | _, _ => false

/-- Whether two host groups are equal up to the order inside their configurations. -/
def sameHostGroup (a b : HostGroup) : Bool :=
  a.name == b.name && a.kind == b.kind && a.cardinality == b.cardinality &&
    a.components == b.components && a.configuration.agrees b.configuration

/-- Whether two blueprints are equal up to the order inside their maps. -/
def agrees (a b : Blueprint) : Bool :=
  a.name == b.name && a.stackIds.agrees (· == ·) b.stackIds &&
    pairwiseAgree sameHostGroup a.hostGroups b.hostGroups &&
    a.configuration.agrees b.configuration &&
    pairwiseAgree sameSettings a.settings b.settings && a.security == b.security

end Blueprint

end ClusterBlueprint
