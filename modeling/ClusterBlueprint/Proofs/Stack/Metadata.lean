import ClusterBlueprint.Proofs.Json.Record
import ClusterBlueprint.Stack.Metadata

namespace ClusterBlueprint.StackMetadata

open Json (Value Decoder Layout)

def itemsValue (items : SortedSet) : Value :=
  .array (items.toList.map Value.text)

theorem readsItem_itemsValue (items : SortedSet) (depth : Nat) (layout : Layout) (level : Nat) :
    Json.ReadsItem (Decoder.sortedSet.read (depth + 1)) layout level (itemsValue items) items := by
  refine ⟨?_, Decoder.reads_sortedSet items depth layout level⟩
  rw [itemsValue, Value.isWhole_array]
  intro item hitem
  obtain ⟨s, -, rfl⟩ := List.mem_map.mp hitem
  rfl

theorem readsItem_catalogValue (catalog : SortedMap SortedSet) (depth : Nat) (layout : Layout)
    (level : Nat) :
    Json.ReadsItem ((Decoder.sortedMap .sortedSet).read (depth + 2)) layout level
      (catalogValue catalog) catalog := by
  have hitems (items : SortedSet) := readsItem_itemsValue items depth layout (level + 1)
  refine ⟨?_, Decoder.reads_sortedMap hitems catalog⟩
  rw [catalogValue, Value.isWhole_object]
  intro member hmember
  obtain ⟨⟨key, items⟩, -, rfl⟩ := List.mem_map.mp hmember
  exact (hitems items).1

/-- A description is what its text is read as, with whatever its catalogs list. -/
theorem parse_toValue (m : StackMetadata) (layout : Layout) :
    decoder.parse (Utf8.encode (m.toValue.toText layout)) = .ok m := by
  have htext (s : String) : Json.ReadsItem (Decoder.text.read 126) layout 1 (.text s) s :=
    ⟨rfl, Decoder.reads_text s 126 layout 1⟩
  have hcatalog (catalog : SortedMap SortedSet) := readsItem_catalogValue catalog 124 layout 1
  apply Json.readWhole_toText
  refine ⟨?_, Decoder.reads_record "StackMetadata" (by decide) ?_ ?_
    ⟨(m.name, m.version, m.services, m.configTypes, ()), ⟨htext _, htext _, hcatalog _,
      hcatalog _, trivial⟩, rfl⟩⟩
  · rw [toValue, Value.isWhole_object]
    simp [(htext _).1, (hcatalog _).1]
  · simp
  · simp [Json.Fields.names]

end ClusterBlueprint.StackMetadata
