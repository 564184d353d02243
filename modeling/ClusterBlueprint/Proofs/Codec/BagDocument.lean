import ClusterBlueprint.Proofs.Codec.PropertyBag

namespace ClusterBlueprint.PropertyBag

open Json (Value)

def HasName (bag : PropertyBag) : Prop :=
  ∃ name, bag.effective? "blueprint_name" = some (.text name) ∧ name ≠ ""

variable {bag : PropertyBag}

theorem hasName_iff : bag.HasName ↔
    ∃ name, bag.fields.get? "blueprint_name" = some (.text name) ∧ name ≠ "" := by
  rw [get?_fields (plainName?_of_not_front (by decide)), HasName]

theorem toDocument_of_hasName (h : bag.HasName) :
    bag.toDocument = (foldStack bag.fields).map fun fields => .object fields.entries := by
  obtain ⟨name, hname, hne⟩ := hasName_iff.mp h
  exact toDocument_of_name hname hne

theorem toDocument_of_not_hasName (h : ¬ bag.HasName) : bag.toDocument = .error .missingName := by
  rw [hasName_iff] at h
  simp only [toDocument]
  split
  · next name hname =>
      split
      · rfl
      · next hempty => exact absurd ⟨name, hname, by rintro rfl; exact hempty rfl⟩ h
  · rfl

/-- The document of a bag with a name, as far as its stack is concerned. -/
theorem toDocument_cases (h : bag.HasName) :
    (BreaksStack bag.effective? ∧ bag.toDocument = .error .incompleteStack) ∨
      (¬ BreaksStack bag.effective? ∧ ∃ folded : SortedMap Value,
        bag.toDocument = .ok (.object folded.entries) ∧
        ∀ field, plainName? field = none →
          folded.get? field = documentField? bag.effective? field) := by
  have hname : bag.fields.get? "stack_name" = bag.effective? "stack_name" :=
    get?_fields (plainName?_of_not_front (by decide))
  have hversion : bag.fields.get? "stack_version" = bag.effective? "stack_version" :=
    get?_fields (plainName?_of_not_front (by decide))
  have hids : bag.fields.get? "stack_ids" = bag.effective? "stack_ids" :=
    get?_fields (plainName?_of_not_front (by decide))
  have hbreaks : BreaksStack bag.fields.get? ↔ BreaksStack bag.effective? := by
    rw [BreaksStack, BreaksStack, hname, hversion, hids]
  have hjoined : joinedStack? bag.fields.get? = joinedStack? bag.effective? := by
    rw [joinedStack?, joinedStack?, hname, hversion]
  rw [toDocument_of_hasName h]
  rcases foldStack_spec bag.fields with ⟨hbroken, hfold⟩ | ⟨hwhole, folded, hfold, hfields⟩
  · rw [hfold]
    exact .inl ⟨hbreaks.mp hbroken, rfl⟩
  · rw [hfold]
    refine .inr ⟨fun hbroken => hwhole (hbreaks.mpr hbroken), folded, rfl, fun field hplain => ?_⟩
    rw [hfields, documentField?, documentField?, hjoined, get?_fields hplain]

theorem members_of_toDocument {v : Value} (h : bag.toDocument = .ok v) :
    ∃ members, v = .object members ∧ (members.map Prod.fst).Pairwise (· < ·) ∧
      ∀ field, plainName? field = none →
        Value.member? members field = documentField? bag.effective? field := by
  have hname : bag.HasName := by
    by_contra hname
    exact nomatch h.symm.trans (toDocument_of_not_hasName hname)
  rcases toDocument_cases hname with ⟨-, hbroken⟩ | ⟨-, folded, hok, hfields⟩
  · exact nomatch h.symm.trans hbroken
  · obtain rfl := Except.ok.inj (h.symm.trans hok)
    exact ⟨folded.entries, rfl, folded.sorted, hfields⟩

theorem fields_of_perm {bag' : PropertyBag} (h : bag'.entries.Perm bag.entries) :
    bag'.fields = bag.fields := by
  apply SortedMap.ext_get?
  intro field
  apply Option.ext
  intro value
  have hkeys : field ∈ bag'.keys ↔ field ∈ bag.keys := (h.map Prod.fst).mem_iff
  rw [get?_fields_eq_some_iff, get?_fields_eq_some_iff, h.mem_iff, h.mem_iff, hkeys]

/-- What a bag makes is settled by the values that count for its fields: the fault of a missing name
goes before that of a broken stack, and a bag with neither makes a document of its fields. -/
theorem toDocument_spec (bag : PropertyBag) :
    (bag.toDocument = .error .missingName ↔ ¬ bag.HasName) ∧
      (bag.toDocument = .error .incompleteStack ↔
        bag.HasName ∧ BreaksStack bag.effective?) ∧
      (bag.HasName → ¬ BreaksStack bag.effective? →
        ∃ members, bag.toDocument = .ok (.object members) ∧
          (members.map Prod.fst).Pairwise (· < ·) ∧
          ∀ field, ¬ "Blueprints/".toList <+: field.toList →
            Value.member? members field = documentField? bag.effective? field) ∧
      ∀ bag' : PropertyBag, bag'.entries.Perm bag.entries → bag'.toDocument = bag.toDocument := by
  refine ⟨?_, ?_, ?_, ?_⟩
  · constructor
    · intro h hname
      rcases toDocument_cases hname with ⟨-, hbroken⟩ | ⟨-, folded, hok, -⟩
      · exact nomatch h.symm.trans hbroken
      · exact nomatch h.symm.trans hok
    · exact toDocument_of_not_hasName
  · constructor
    · intro h
      have hname : bag.HasName := by
        by_contra hname
        exact nomatch h.symm.trans (toDocument_of_not_hasName hname)
      rcases toDocument_cases hname with ⟨hbreaks, -⟩ | ⟨-, folded, hok, -⟩
      · exact ⟨hname, hbreaks⟩
      · exact nomatch h.symm.trans hok
    · rintro ⟨hname, hbreaks⟩
      rcases toDocument_cases hname with ⟨-, hbroken⟩ | ⟨hwhole, -⟩
      · exact hbroken
      · exact absurd hbreaks hwhole
  · intro hname hwhole
    rcases toDocument_cases hname with ⟨hbreaks, -⟩ | ⟨-, folded, hok, hfields⟩
    · exact absurd hbreaks hwhole
    · exact ⟨folded.entries, hok, folded.sorted,
        fun field hfront => hfields field (plainName?_of_not_front hfront)⟩
  · intro bag' hperm
    rw [toDocument, toDocument, fields_of_perm hperm]

/-- A stack with its name under one spelling and its version under the other, and a name that has
both. -/
def mixedSpellings : PropertyBag :=
  .ofList [("Blueprints/blueprint_name", .null), ("stack_name", .text "HDP"),
    ("Blueprints/stack_version", .text "3.0"), ("blueprint_name", .text "null")]

theorem toDocument_spec_sample :
    ∃ members, mixedSpellings.toDocument = .ok (.object members) ∧
      Value.member? members "stack_ids" = some (.array [.text "HDP-3.0"]) ∧
      Value.member? members "blueprint_name" = some (.text "null") ∧
      PropertyBag.toDocument (.ofList mixedSpellings.entries.reverse) =
        .ok (.object members) := by
  have hname : mixedSpellings.HasName := ⟨"null", rfl, by decide⟩
  have hwhole : ¬ BreaksStack mixedSpellings.effective? := fun h => h.2.2 "HDP" "3.0" rfl rfl
  obtain ⟨-, -, hdocument, hperm⟩ := toDocument_spec mixedSpellings
  obtain ⟨members, hok, -, hmembers⟩ := hdocument hname hwhole
  refine ⟨members, hok, (hmembers _ (by decide)).trans rfl, (hmembers _ (by decide)).trans rfl, ?_⟩
  exact (hperm _ (List.reverse_perm mixedSpellings.entries)).trans hok

end ClusterBlueprint.PropertyBag
