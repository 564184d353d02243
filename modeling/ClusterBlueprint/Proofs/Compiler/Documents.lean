import ClusterBlueprint.Proofs.Blueprint.Shown
import ClusterBlueprint.Proofs.Compiler.Entities

namespace ClusterBlueprint

open Json (Value)

namespace CopiedField

def path : CopiedField → List String
  | .blueprintName => ["blueprint_name"]
  | .securityType => ["security", "type"]
  | .descriptorReference => ["security", "security_descriptor_reference"]

/-- What stands in a document for a copied field; nothing does for a reference that is missing. -/
def toValue? : (f : CopiedField) → f.Value → Option Json.Value
  | .blueprintName, name => some (.text name)
  | .securityType, type => some (.text type.name)
  | .descriptorReference, reference => reference.map .text

theorem at?_path_of_isShownBy {b : Blueprint} {v : Json.Value} (h : b.IsShownBy v)
    (f : CopiedField) : v.at? f.path = f.toValue? (f.declared b) := by
  obtain ⟨members, rfl, -⟩ := h.members
  obtain ⟨item, hitem, hsecurity⟩ := h.security
  have hinside (key : String) :
      (Json.Value.object members).at? ["security", key] = item.at? [key] := by
    rw [Value.at?_singleton] at hitem
    rw [Value.at?, hitem]
    rfl
  cases f with
  | blueprintName => exact h.name
  | securityType => exact (hinside "type").trans hsecurity.type
  | descriptorReference =>
      exact (hinside "security_descriptor_reference").trans hsecurity.descriptorReference

end CopiedField

namespace Compiler

variable {σ : Type}

theorem entityMembers_of_parse {e : Entity} {members : List (String × Value)}
    (h : Json.parse (Utf8.encode e.content) = .ok (.object members)) :
    entityMembers e = .ok members := by
  rw [entityMembers, h]

/-- The layout of a document makes no difference to what is read from it. -/
theorem entityMembers_toEntity (c : Compiler σ) {b : Blueprint}
    (hsettings : b.HasReadableSettings) :
    entityMembers (c.toEntity b) = .ok (Value.arrange (Value.sortedMembers b.members)) := by
  obtain ⟨hwhole, hdepth⟩ := Blueprint.readable_toValue hsettings
  apply entityMembers_of_parse
  rw [toEntity, Codec.encode, Json.parse_toText hwhole hdepth, Blueprint.toValue_eq,
    Value.sorted_object]

theorem isShownBy_members {b : Blueprint} (hsettings : b.HasReadableSettings) :
    b.IsShownBy (.object (Value.arrange (Value.sortedMembers b.members))) := by
  rw [← Value.sorted_object, ← Blueprint.toValue_eq]
  exact Blueprint.isShownBy_sorted fun entry hentry m hm => (hsettings entry hentry m hm).1

theorem exists_entityMembers_of_decode {c : Codec} {e : Entity} {b : Blueprint}
    (h : c.decode (Utf8.encode e.content) = .ok b) : ∃ members, entityMembers e = .ok members := by
  obtain ⟨v, b₀, hparse, hvalue, -⟩ := Codec.decode_eq_ok h
  cases v with
  | object members => exact ⟨members, entityMembers_of_parse hparse⟩
  | _ => nomatch hvalue

/-- The document of a blueprint, its members and the copied fields of its entity agree. Whatever
compiler the document is from, its members are the same, they show the blueprint, and where a copied
field stands in them is what the entity has in it. Every entity that can be loaded has members. -/
theorem entityMembers_shows :
    (∀ b : Blueprint, b.HasReadableSettings → ∃ members, b.IsShownBy (.object members) ∧
      ∀ c : Compiler σ, entityMembers (c.toEntity b) = .ok members ∧
        ∀ f : CopiedField, (Value.object members).at? f.path =
          f.toValue? (f.stored (c.toEntity b))) ∧
    ∀ (c : Compiler σ) (e : Entity) r s s', c.fromEntity e s = (.ok r, s') →
      ∃ members, entityMembers e = .ok members := by
  constructor
  · intro b hsettings
    have hshown := isShownBy_members hsettings
    refine ⟨_, hshown, fun c => ⟨c.entityMembers_toEntity hsettings, fun f => ?_⟩⟩
    rw [stored_toEntity]
    exact CopiedField.at?_path_of_isShownBy hshown f
  · intro c e r s s' h
    obtain ⟨n, hdecode, -⟩ := fromEntity_eq_ok h
    exact exists_entityMembers_of_decode hdecode

def indentedSample : Compiler (StackShelf × EntityShelf) :=
  ofParts { CompilerOptions.standard with pretty := true } .standard StackShelf.registry
    EntityShelf.store

theorem entityMembers_shows_sample :
    (∃ members, entityMembers (sample.toEntity Codec.sample) = .ok members ∧
      entityMembers (indentedSample.toEntity Codec.sample) = .ok members ∧
      (Value.object members).at? ["security", "security_descriptor_reference"] =
        some (.text "kdc")) ∧
      ∃ members, entityMembers storedDemo = .ok members := by
  have hsettings : Codec.sample.HasReadableSettings :=
    List.forall_mem_singleton.mpr (List.forall_mem_singleton.mpr ⟨by decide, by decide, by decide⟩)
  obtain ⟨hwritten, hloaded⟩ := @entityMembers_shows (StackShelf × EntityShelf)
  constructor
  · obtain ⟨members, -, hsame⟩ := hwritten Codec.sample hsettings
    obtain ⟨hcompact, hcopies⟩ := hsame sample
    exact ⟨members, hcompact, (hsame indentedSample).1, hcopies .descriptorReference⟩
  · have hloads : (sample.fromEntity storedDemo (StackShelf.sample, ∅)).1.toOption.isSome =
        true := by
      decide +kernel
    rcases hload : sample.fromEntity storedDemo (StackShelf.sample, ∅) with ⟨error | r, t⟩
    · rw [hload] at hloads
      cases hloads
    · exact hloaded sample storedDemo r _ t hload

end Compiler

end ClusterBlueprint
