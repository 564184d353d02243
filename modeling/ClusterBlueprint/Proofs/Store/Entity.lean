import ClusterBlueprint.Proofs.Blueprint.Wire
import ClusterBlueprint.Store.Entity

namespace ClusterBlueprint.Entity

open Json (Value Decoder Layout)

theorem reads_securityType (t : SecurityType) (depth : Nat) (layout : Layout) (level : Nat) :
    Json.Reads (SecurityType.decoder.read depth) (t.toValue.render layout level) t := by
  refine Decoder.reads_variant ?_ depth layout level
  cases t <;> rfl

theorem parse_toValue (e : Entity) (layout : Layout) :
    decoder.parse (Utf8.encode (e.toValue.toText layout)) = .ok e := by
  obtain ⟨name, type, reference, content⟩ := e
  have hwhole (s : String) : (Value.text s).isWhole = true := rfl
  apply Json.readWhole_toText
  refine ⟨?_, Decoder.reads_record "BlueprintEntity" (by decide) ?_ ?_
    ⟨(name, type, reference, content, ()), ⟨⟨rfl, ?_⟩, ⟨rfl, ?_⟩, ?_, ?_, trivial⟩, rfl⟩⟩
  · rw [toValue, Value.isWhole_object]
    cases reference <;> simp [optionalText, hwhole, SecurityType.toValue]
  · cases reference <;> simp [optionalText]
  · cases reference <;> simp [optionalText, Json.Fields.names]
  · exact Decoder.reads_text name 127 layout 1
  · exact reads_securityType type 127 layout 1
  · cases reference with
    | none => rfl
    | some s => exact ⟨rfl, Decoder.reads_nullable_text s 127 layout 1⟩
  · cases reference <;> exact ⟨rfl, Decoder.reads_text content 127 layout 1⟩

end ClusterBlueprint.Entity
