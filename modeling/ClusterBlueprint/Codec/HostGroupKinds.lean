import ClusterBlueprint.Codec.Error

namespace ClusterBlueprint

/-- A way to get a host group from the value that describes it. -/
abbrev HostGroupShape := Json.Value → Except Json.Error HostGroup

namespace HostGroupShape

def plain : HostGroupShape :=
  HostGroup.decoder.convert

/-- An ordinary host group that gets a cardinality if it has none. -/
def withCardinality (cardinality : String) : HostGroupShape := fun v =>
  (plain v).map fun g => { g with cardinality := some (g.cardinality.getD cardinality) }

def refuse (reason : String) : HostGroupShape := fun _ =>
  .error (Json.Fault.refused reason).withoutPosition

end HostGroupShape

abbrev HostGroupKinds := SortedMap HostGroupShape

namespace HostGroupKinds

def standard : HostGroupKinds :=
  SortedMap.insert ∅ HostGroup.standardKind .plain

def supports (kinds : HostGroupKinds) (kind : String) : Bool :=
  SortedMap.contains kinds kind

def register (kinds : HostGroupKinds) (kind : String) (shape : HostGroupShape) :
    HostGroupKinds :=
  SortedMap.insert kinds kind shape

/-- The name of a host group in messages: what it gives as its name if that is a string. -/
def nameFor (members : List (String × Json.Value)) : String :=
  match Json.Value.member? members "name" with
  | some (.text name) => name
  | _ => ""

/-- Gets a host group from the value that describes it, in the shape of its kind. -/
def resolve (kinds : HostGroupKinds) (v : Json.Value) : Except CodecError HostGroup :=
  let decode (name kind : String) : Except CodecError HostGroup :=
    match SortedMap.get? kinds kind with
    | none => .error (.unsupportedKind name kind)
    | some shape => (shape v).mapError fun e => .parse (.malformedHostGroup name e)
  match v with
  | .object members =>
      let name := nameFor members
      match Json.Value.member? members "kind" with
      | none | some .null => decode name HostGroup.standardKind
      | some (.text kind) => decode name kind
      | some found => .error (.parse (.kindNotText name found))
  | found => .error (.parse (.hostGroupNotAnObject found))

def resolveAll (kinds : HostGroupKinds) : List Json.Value → Except CodecError (List HostGroup)
  | [] => .ok []
  | v :: vs => do
      let g ← kinds.resolve v
      let gs ← resolveAll kinds vs
      .ok (g :: gs)

def describe (kinds : HostGroupKinds) : String :=
  "HostGroupRegistry \x7b kinds: [" ++
    ", ".intercalate ((SortedMap.keys kinds).map Text.quoted) ++ "] \x7d"

end HostGroupKinds

end ClusterBlueprint
