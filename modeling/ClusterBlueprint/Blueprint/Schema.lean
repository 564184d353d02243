namespace ClusterBlueprint

namespace Schema

def lines : List String :=
  [
    "\x7b",
    "  \"$schema\": \"http://json-schema.org/draft-07/schema#\",",
    "  \"title\": \"Blueprint\",",
    "  \"type\": \"object\",",
    "  \"required\": [\"blueprint_name\"],",
    "  \"properties\": \x7b",
    "    \"blueprint_name\": \x7b",
    "      \"type\": \"string\",",
    "      \"pattern\": \"^[A-Za-z0-9][A-Za-z0-9_.\\\\-]*$\"",
    "    \x7d,",
    "    \"stack_ids\": \x7b",
    "      \"type\": \"array\",",
    "      \"minItems\": 1,",
    "      \"items\": \x7b \"$ref\": \"#/definitions/StackId\" \x7d",
    "    \x7d,",
    "    \"host_groups\": \x7b",
    "      \"type\": \"array\",",
    "      \"items\": \x7b \"$ref\": \"#/definitions/HostGroup\" \x7d",
    "    \x7d,",
    "    \"configurations\": \x7b \"$ref\": \"#/definitions/Configurations\" \x7d,",
    "    \"settings\": \x7b",
    "      \"type\": \"array\",",
    "      \"items\": \x7b \"type\": \"object\" \x7d",
    "    \x7d,",
    "    \"security\": \x7b \"$ref\": \"#/definitions/Security\" \x7d",
    "  \x7d,",
    "  \"definitions\": \x7b",
    "    \"StackId\": \x7b",
    "      \"type\": \"string\",",
    "      \"pattern\": \"^[^\\\\s-]+-\\\\S+$\"",
    "    \x7d,",
    "    \"HostGroup\": \x7b",
    "      \"type\": \"object\",",
    "      \"required\": [\"name\"],",
    "      \"properties\": \x7b",
    "        \"name\": \x7b \"type\": \"string\", \"minLength\": 1 \x7d,",
    "        \"kind\": \x7b \"type\": \"string\" \x7d,",
    "        \"cardinality\": \x7b \"type\": \"string\" \x7d,",
    "        \"components\": \x7b",
    "          \"type\": \"array\",",
    "          \"items\": \x7b \"$ref\": \"#/definitions/Component\" \x7d",
    "        \x7d,",
    "        \"configurations\": \x7b \"$ref\": \"#/definitions/Configurations\" \x7d",
    "      \x7d",
    "    \x7d,",
    "    \"Component\": \x7b",
    "      \"type\": \"object\",",
    "      \"required\": [\"name\"],",
    "      \"properties\": \x7b",
    "        \"name\": \x7b \"type\": \"string\", \"minLength\": 1 \x7d,",
    "        \"provision_action\": \x7b",
    "          \"enum\": [\"INSTALL_ONLY\", \"START_ONLY\", \"INSTALL_AND_START\"]",
    "        \x7d",
    "      \x7d",
    "    \x7d,",
    "    \"Configurations\": \x7b",
    "      \"type\": \"array\",",
    "      \"items\": \x7b",
    "        \"type\": \"object\",",
    "        \"additionalProperties\": \x7b",
    "          \"type\": \"object\",",
    "          \"properties\": \x7b",
    "            \"properties\": \x7b",
    "              \"type\": \"object\",",
    "              \"additionalProperties\": \x7b \"type\": [\"string\", \"number\", \"boolean\"] \x7d",
    "            \x7d,",
    "            \"properties_attributes\": \x7b",
    "              \"type\": \"object\",",
    "              \"additionalProperties\": \x7b",
    "                \"type\": \"object\",",
    "                \"additionalProperties\": \x7b \"type\": [\"string\", \"number\", \"boolean\"] \x7d",
    "              \x7d",
    "            \x7d",
    "          \x7d,",
    "          \"additionalProperties\": false",
    "        \x7d",
    "      \x7d",
    "    \x7d,",
    "    \"Security\": \x7b",
    "      \"type\": \"object\",",
    "      \"properties\": \x7b",
    "        \"type\": \x7b \"enum\": [\"NONE\", \"KERBEROS\", \"CUSTOM\"] \x7d,",
    "        \"security_descriptor_reference\": \x7b \"type\": \"string\" \x7d",
    "      \x7d",
    "    \x7d",
    "  \x7d",
    "\x7d"
  ]

/-- The published schema of blueprint documents. -/
def text : String :=
  String.join (lines.map fun line => line ++ "\n")

end Schema

end ClusterBlueprint
