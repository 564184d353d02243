import ClusterBlueprint.Codec.Basic
import ClusterBlueprint.Codec.PropertyBag
import ClusterBlueprint.Compiler.Options
import ClusterBlueprint.Compiler.Resolution
import ClusterBlueprint.Store.Basic

/-!
The compiler. It turns documents, property bags and stored entities into resolved blueprints and
resolved blueprints into documents and entities. Whatever it produces is normalized and has the
description of every stack; otherwise it produces nothing.
-/

namespace ClusterBlueprint

/-- A field that an entity copies from its document. -/
inductive CopiedField where
  | blueprintName
  | securityType
  | descriptorReference
deriving DecidableEq, Repr

def CopiedField.name : CopiedField → String
  | .blueprintName => "blueprint_name"
  | .securityType => "security_type"
  | .descriptorReference => "security_descriptor_reference"

inductive CompileError where
  | document (error : CodecError)
  | bag (fault : PropertyBag.Fault)
  | resolution (error : ResolutionError)
  | mismatch (field : CopiedField) (stored document : String)
  | noSuchBlueprint (name : String)
  | noStackRoot
  | store (error : StoreError)
deriving DecidableEq

def CompileError.message : CompileError → String
  | .document error => error.message
  | .bag fault => fault.message
  | .resolution error => error.message
  | .mismatch field stored found =>
      s!"stored entity field {field.name} ({stored}) disagrees with its document ({found})"
  | .noSuchBlueprint name => s!"blueprint '{name}' does not exist"
  | .noStackRoot =>
      s!"compiler configuration: no stack root configured (set {CompilerOptions.rootVariable})"
  | .store error => s!"store error: {error.message}"

/-- What a compiler does: it may change the state and ends with a result or an error. -/
abbrev Compile (σ α : Type) := ExceptT CompileError (StateM σ) α

/-- A compiler with a registry and a store whose states are parts of `σ`. -/
structure Compiler (σ : Type) where
  options : CompilerOptions
  kinds : HostGroupKinds
  registry : StackRegistry σ
  store : BlueprintStore σ

/-- The registry of a compiler that looks stacks up where its options say. -/
def CompilerOptions.registry (o : CompilerOptions) :
    Except CompileError (StackRegistry Files.Tree) :=
  match o.stackRoot with
  | some root => .ok (StackFiles.registry root)
  | none => .error .noStackRoot

namespace Compiler

variable {σ : Type}

def codec (c : Compiler σ) : Codec :=
  ⟨c.options.layout, c.kinds⟩

def finish (c : Compiler σ) (b : Blueprint) : Compile σ ResolvedBlueprint :=
  fun s =>
    let (answer, s) := c.registry.resolveAll b s
    (answer.mapError .resolution, s)

def goOn {α : Type} (result : Except CompileError α) : Compile σ α :=
  fun s => (result, s)

def fromCodec {α : Type} (result : Except CodecError α) : Compile σ α :=
  goOn (result.mapError .document)

def fromDocument (c : Compiler σ) (text : Bytes) : Compile σ ResolvedBlueprint := do
  let b ← fromCodec (c.codec.decode text)
  c.finish b

/-- The resolved blueprint of a property bag. A security that is given takes the place of the one in
the bag. -/
def fromProperties (c : Compiler σ) (bag : PropertyBag) (security : Option Security) :
    Compile σ ResolvedBlueprint := do
  let document ← goOn (bag.toDocument.mapError .bag)
  let b ← fromCodec (c.codec.decodeValue document)
  let b ← fromCodec (Codec.normalize b)
  c.finish { b with security := security.getD b.security }

def toDocument (c : Compiler σ) (r : ResolvedBlueprint) : String :=
  c.codec.encode r.blueprint

def toEntity (c : Compiler σ) (b : Blueprint) : Entity where
  blueprintName := b.name
  securityType := b.security.type
  descriptorReference := b.security.descriptorReference
  content := c.codec.encode b

/-- Compares the copied fields of an entity with the blueprint of its document; of several that
differ the first is reported. -/
def checkCopies (e : Entity) (b : Blueprint) : Except CompileError Unit :=
  if e.blueprintName ≠ b.name then .error (.mismatch .blueprintName e.blueprintName b.name)
  else if e.securityType ≠ b.security.type then
    .error (.mismatch .securityType e.securityType.name b.security.type.name)
  else if e.descriptorReference ≠ b.security.descriptorReference then
    .error (.mismatch .descriptorReference (e.descriptorReference.getD "")
      (b.security.descriptorReference.getD ""))
  else .ok ()

def fromEntity (c : Compiler σ) (e : Entity) : Compile σ ResolvedBlueprint := do
  let b ← fromCodec (c.codec.decode (Utf8.encode e.content))
  goOn (checkCopies e b)
  c.finish b

def getBlueprint (c : Compiler σ) (name : String) : Compile σ ResolvedBlueprint := do
  match ← (c.store.find name : StateM σ _) with
  | .ok (some e) => c.fromEntity e
  | .ok none => throw (.noSuchBlueprint name)
  | .error error => throw (.store error)

def save (c : Compiler σ) (r : ResolvedBlueprint) : Compile σ Unit := do
  match ← (c.store.put (c.toEntity r.blueprint) : StateM σ _) with
  | .ok () => pure ()
  | .error error => throw (.store error)

def entityMembers (e : Entity) : Except CompileError (List (String × Json.Value)) :=
  match Json.parse (Utf8.encode e.content) with
  | .ok (.object members) => .ok members
  | .ok found => .error (.document (.parse (.storedNotAnObject e.blueprintName found)))
  | .error error => .error (.document (.parse (.malformed error)))

def describe (c : Compiler σ) : String :=
  "BlueprintCompiler \x7b codec: Codec \x7b options: " ++ c.options.describeLayout ++
    ", host_groups: " ++ c.kinds.describe ++ " \x7d, config: " ++ c.options.describe ++ ", .. \x7d"

end Compiler

def StackRegistry.describe {σ : Type} (_ : StackRegistry σ) : String :=
  "StackResolver \x7b .. \x7d"

end ClusterBlueprint
