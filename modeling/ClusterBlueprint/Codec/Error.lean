import ClusterBlueprint.Blueprint.Structure

namespace ClusterBlueprint

/-- Why a text or a JSON value is no blueprint document. -/
inductive DocumentFault where
  | malformed (error : Json.Error)
  | notAnObject
  | hostGroupsNotAnArray (found : Json.Value)
  | hostGroupNotAnObject (found : Json.Value)
  | kindNotText (hostGroup : String) (found : Json.Value)
  | malformedHostGroup (hostGroup : String) (error : Json.Error)
  | storedNotAnObject (blueprint : String) (found : Json.Value)
deriving DecidableEq

def DocumentFault.message : DocumentFault → String
  | .malformed error => error.message
  | .notAnObject => "blueprint document must be a JSON object"
  | .hostGroupsNotAnArray found => s!"host_groups must be an array, got {found.compact}"
  | .hostGroupNotAnObject found => s!"host group must be a JSON object, got {found.compact}"
  | .kindNotText hostGroup found =>
      s!"host group '{hostGroup}': kind must be a string, got {found.compact}"
  | .malformedHostGroup hostGroup error => s!"host group '{hostGroup}': {error.message}"
  | .storedNotAnObject blueprint found =>
      s!"stored blueprint '{blueprint}' is not a JSON object: {found.compact}"

inductive CodecError where
  | parse (fault : DocumentFault)
  | unsupportedKind (hostGroup kind : String)
  | structure (violation : Violation)
deriving DecidableEq

def CodecError.message : CodecError → String
  | .parse fault => s!"failed to parse blueprint document: {fault.message}"
  | .unsupportedKind hostGroup kind => s!"host group '{hostGroup}' has unsupported kind '{kind}'"
  | .structure violation => violation.message

end ClusterBlueprint
