import ClusterBlueprint.Codec.HostGroupKinds

namespace ClusterBlueprint

structure Codec where
  layout : Json.Layout
  kinds : HostGroupKinds

namespace Codec

def hostGroupsField : String := "host_groups"

def hostGroupValues (members : List (String × Json.Value)) :
    Except CodecError (List Json.Value) :=
  match Json.Value.member? members hostGroupsField with
  | none | some .null => .ok []
  | some (.array values) => .ok values
  | some found => .error (.parse (.hostGroupsNotAnArray found))

/-- The blueprint that a JSON value describes, not yet normalized. -/
def decodeValue (c : Codec) : Json.Value → Except CodecError Blueprint
  | .object members => do
      let values ← hostGroupValues members
      let others := Json.Value.object (SortedMap.eraseEntry hostGroupsField members)
      let b ← (Blueprint.decoder.convert others).mapError fun e => .parse (.malformed e)
      let hostGroups ← c.kinds.resolveAll values
      .ok { b with hostGroups }
  | _ => .error (.parse .notAnObject)

def decodeRaw (c : Codec) (text : Bytes) : Except CodecError Blueprint := do
  let v ← (Json.parse text).mapError fun e => .parse (.malformed e)
  c.decodeValue v

def normalize (b : Blueprint) : Except CodecError Blueprint :=
  b.normalize.mapError .structure

/-- The normalized blueprint that a text describes. -/
def decode (c : Codec) (text : Bytes) : Except CodecError Blueprint := do
  let b ← c.decodeRaw text
  normalize b

def encode (c : Codec) (b : Blueprint) : String :=
  b.toValue.toText c.layout

end Codec

end ClusterBlueprint
