import ClusterBlueprint.Blueprint.Wire

namespace ClusterBlueprint

/-- The stored form of a blueprint: its document, beside copies of the fields that a store may want
to show. -/
structure Entity where
  blueprintName : String
  securityType : SecurityType
  descriptorReference : Option String
  content : String
deriving DecidableEq

namespace Entity

def toValue (e : Entity) : Json.Value :=
  .object (("blueprint_name", .text e.blueprintName) ::
    ("security_type", e.securityType.toValue) ::
    optionalText "security_descriptor_reference" e.descriptorReference ++
    [("content", .text e.content)])

def decoder : Json.Decoder Entity :=
  .record "BlueprintEntity"
    (.cons "blueprint_name" .text none <|
      .cons "security_type" SecurityType.decoder none <|
      .cons "security_descriptor_reference" (.nullable .text) (some none) <|
      .cons "content" .text none .nil)
    fun (blueprintName, securityType, descriptorReference, content, ()) =>
      ⟨blueprintName, securityType, descriptorReference, content⟩

end Entity

end ClusterBlueprint
