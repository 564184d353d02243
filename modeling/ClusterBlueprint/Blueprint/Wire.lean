import ClusterBlueprint.Blueprint.Basic
import ClusterBlueprint.Configuration.Wire

namespace ClusterBlueprint

open Json (Value Decoder)

def optionalText (key : String) (value : Option String) : List (String × Value) :=
  match value with
  | some s => [(key, .text s)]
  | none => []

namespace ProvisionAction

def toValue (a : ProvisionAction) : Value :=
  .text a.name

def decoder : Decoder ProvisionAction :=
  .variant (all.map fun a => (a.name, a))

end ProvisionAction

namespace Component

def toValue (c : Component) : Value :=
  .object (("name", .text c.name) ::
    match c.action with
    | some a => [("provision_action", a.toValue)]
    | none => [])

def decoder : Decoder Component :=
  .record "Component"
    (.cons "name" .text none <|
      .cons "provision_action" (.nullable ProvisionAction.decoder) (some none) .nil)
    fun (name, action, ()) => ⟨name, action⟩

end Component

/-- The member for a configuration, left out when there is nothing in it. -/
def configurationMember (c : Configuration) : List (String × Value) :=
  if c.isEmpty then [] else [("configurations", c.toValue)]

namespace HostGroup

def toValue (g : HostGroup) : Value :=
  let components :=
    if g.components.isEmpty then []
    else [("components", Value.array (g.components.map Component.toValue))]
  .object (("name", .text g.name) :: optionalText "kind" g.kind ++
    optionalText "cardinality" g.cardinality ++ components ++ configurationMember g.configuration)

def decoder : Decoder HostGroup :=
  .record "HostGroup"
    (.cons "name" .text none <|
      .cons "kind" (.nullable .text) (some none) <|
      .cons "cardinality" (.nullable .text) (some none) <|
      .cons "components" (.list Component.decoder) (some []) <|
      .cons "configurations" Configuration.decoder (some ∅) .nil)
    fun (name, kind, cardinality, components, configuration, ()) =>
      ⟨name, kind, cardinality, components, configuration⟩

end HostGroup

namespace SecurityType

def toValue (t : SecurityType) : Value :=
  .text t.name

def decoder : Decoder SecurityType :=
  .variant (all.map fun t => (t.name, t))

end SecurityType

namespace Security

def toValue (s : Security) : Value :=
  .object (("type", s.type.toValue) ::
    optionalText "security_descriptor_reference" s.descriptorReference)

def decoder : Decoder Security :=
  .record "SecurityConfiguration"
    (.cons "type" SecurityType.decoder (some .none) <|
      .cons "security_descriptor_reference" (.nullable .text) (some none) .nil)
    fun (type, descriptorReference, ()) => ⟨type, descriptorReference⟩

end Security

namespace Blueprint

def settingsValue (entry : SettingsEntry) : Value :=
  .object entry.entries

def stackMap (ids : List StackId) : OrderedMap String StackId :=
  .ofList (ids.map fun id => (id.display, id))

def toValue (b : Blueprint) : Value :=
  let settings :=
    if b.settings.isEmpty then [] else [("settings", Value.array (b.settings.map settingsValue))]
  .object (("blueprint_name", .text b.name) ::
    ("stack_ids", .array (b.stackIds.values.map StackId.toValue)) ::
    ("host_groups", .array (b.hostGroups.map HostGroup.toValue)) ::
    configurationMember b.configuration ++ settings ++ [("security", b.security.toValue)])

/-- A blueprint in a document. A name of null counts as the empty one, and every field may be
absent. -/
def decoder : Decoder Blueprint :=
  .record "Blueprint"
    (.cons "blueprint_name" (.map (Option.getD · "") (.nullable .text)) (some "") <|
      .cons "stack_ids" (.map stackMap (.list StackId.decoder)) (some ∅) <|
      .cons "host_groups" (.list HostGroup.decoder) (some []) <|
      .cons "configurations" Configuration.decoder (some ∅) <|
      .cons "settings" (.list (.orderedMap .value)) (some []) <|
      .cons "security" Security.decoder (some .unsecured) .nil)
    fun (name, stackIds, hostGroups, configuration, settings, security, ()) =>
      ⟨name, stackIds, hostGroups, configuration, settings, security⟩

end Blueprint

end ClusterBlueprint
