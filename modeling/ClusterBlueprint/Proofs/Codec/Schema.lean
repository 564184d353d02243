import ClusterBlueprint.Proofs.Blueprint.Schema
import ClusterBlueprint.Proofs.Codec.Plain

namespace ClusterBlueprint

open Json (Value Form Decoder)

theorem HostGroup.kind_of_accepts {v : Value} (h : form.Accepts v) :
    ∃ members kind, v = .object members ∧
      (Value.member? members "kind" = some (.text kind) ∨
        Value.member? members "kind" = none ∧ kind = standardKind) := by
  cases h with
  | definition h =>
      cases h with
      | @object _ _ _ members _ _ hproperties _ =>
          cases hv : Value.member? members "kind" with
          | none => exact ⟨members, standardKind, rfl, .inr ⟨hv, rfl⟩⟩
          | some v =>
              have hkind := hproperties ("kind", .text false none) (.tail _ (.head _)) v hv
              cases hkind with
              | @text _ _ kind _ _ => exact ⟨members, kind, rfl, .inl hv⟩

def HostGroupKinds.ArePlain (kinds : HostGroupKinds) : Prop :=
  ∀ kind shape, SortedMap.get? kinds kind = some shape → shape = .plain

theorem HostGroupKinds.unsupportedKind_of_accepts {kinds : HostGroupKinds}
    (hkinds : kinds.ArePlain) {v : Value} (hv : HostGroup.form.Accepts v) {e : CodecError}
    (he : kinds.resolve v = .error e) :
    ∃ hostGroup kind, e = .unsupportedKind hostGroup kind ∧ SortedMap.get? kinds kind = none := by
  obtain ⟨g, hg⟩ := HostGroup.form_covers v hv
  obtain ⟨members, kind, rfl, hgiven⟩ := HostGroup.kind_of_accepts hv
  have hkind : IsOfKind members kind := hgiven.imp_right (And.imp_left .inl)
  cases hshape : SortedMap.get? kinds kind with
  | none =>
      rw [hkind.resolve_of_unknown hshape] at he
      cases he
      exact ⟨_, _, rfl, hshape⟩
  | some shape =>
      rw [hkinds kind shape hshape] at hshape
      have hplain : kinds.DecodesPlainly (.object members) :=
        ⟨members, kind, rfl, hkind, hshape⟩
      rw [hplain.resolve_eq_ok_iff.mpr hg] at he
      cases he

namespace Codec

theorem keys_of_accepts {members : List (String × Value)}
    (h : Blueprint.form.Accepts (.object members)) : (members.map Prod.fst).Nodup := by
  cases h with
  | object hkeys _ _ _ => exact hkeys

theorem hostGroups_of_accepts {members : List (String × Value)}
    (h : Blueprint.form.Accepts (.object members)) :
    ∃ values, hostGroupValues members = .ok values ∧
      Value.member? members hostGroupsField ≠ some .null ∧
      ∀ v ∈ values, HostGroup.form.Accepts v := by
  cases h with
  | object _ _ hproperties _ =>
      have hhostGroups := hproperties ("host_groups", .array false HostGroup.form)
        (.tail _ (.tail _ (.head _)))
      rw [hostGroupValues, hostGroupsField]
      cases hv : Value.member? members "host_groups" with
      | none => exact ⟨[], rfl, (Option.some_ne_none _).symm, List.forall_mem_nil _⟩
      | some v =>
          have hgroups := hhostGroups v hv
          cases hgroups with
          | @array _ _ values _ hvalues =>
              refine ⟨values, rfl, ?_, hvalues⟩
              rintro ⟨⟩

/-- What the schema describes is decoded but for its host groups, which could be decoded as ordinary
ones. -/
theorem exists_others_of_accepts {members : List (String × Value)}
    (h : Blueprint.form.Accepts (.object members)) {values : List Value}
    (hvalues : hostGroupValues members = .ok values)
    (hnull : Value.member? members hostGroupsField ≠ some .null) :
    ∃ b : Blueprint, HostGroup.decoder.ofItems values = .ok b.hostGroups ∧
      Blueprint.decoder.ofValue (.object (SortedMap.eraseEntry hostGroupsField members)) =
        .ok { b with hostGroups := [] } := by
  obtain ⟨b, hb⟩ := Blueprint.form_covers _ h
  exact ⟨b, (Blueprint.ofValue_iff_ofValue_eraseEntry (keys_of_accepts h) hvalues hnull).mp hb⟩

theorem decodeValue_of_accepts {c : Codec} {members : List (String × Value)}
    (h : Blueprint.form.Accepts (.object members)) (hplain : c.HasPlainHostGroups members) :
    ∃ b, c.decodeValue (.object members) = .ok b := by
  obtain ⟨values, hvalues, hnull, hgroups⟩ := hplain.hostGroupValues_eq_ok
  obtain ⟨b, hhostGroups, hothers⟩ := exists_others_of_accepts h hvalues hnull
  refine ⟨b, (c.decodeValue_eq_ok_iff (keys_of_accepts h) hvalues).mpr ⟨?_, hothers⟩⟩
  exact (HostGroupKinds.resolveAll_eq_ok_iff_ofItems hgroups).mpr hhostGroups

theorem unsupportedKind_of_decodeValue {c : Codec} (hkinds : c.kinds.ArePlain)
    {members : List (String × Value)} (h : Blueprint.form.Accepts (.object members))
    {e : CodecError} (he : c.decodeValue (.object members) = .error e) :
    ∃ hostGroup kind, e = .unsupportedKind hostGroup kind ∧
      SortedMap.get? c.kinds kind = none := by
  obtain ⟨values, hvalues, hnull, hgroups⟩ := hostGroups_of_accepts h
  obtain ⟨b, -, hothers⟩ := exists_others_of_accepts h hvalues hnull
  rw [decodeValue, hvalues] at he
  simp only [bind, Except.bind, Decoder.convert, hothers, Except.mapError] at he
  cases hresolve : c.kinds.resolveAll values with
  | ok hostGroups =>
      rw [hresolve] at he
      cases he
  | error e' =>
      rw [hresolve] at he
      cases he
      obtain ⟨v, hv, hfails⟩ := HostGroupKinds.exists_of_resolveAll_eq_error hresolve
      exact HostGroupKinds.unsupportedKind_of_accepts hkinds (hgroups v hv) hfails

/-- The schema and the codec agree. The schema that is handed out is the form of blueprints in
writing. What a normal form is encoded to is of the form. What is of the form is decoded if its host
groups are of plainly decoded kinds, and every text of it that can be read at all is; where all
known kinds are plain, only a violation of the structure or an unknown kind is left as a reason to
refuse it. -/
theorem schema_agrees :
    Json.parse (Utf8.encode Schema.text) = .ok Schema.document.sorted ∧
    (∀ b n : Blueprint, b.normalize = .ok n →
      Blueprint.form.Accepts n.toValue ∧ Blueprint.form.Accepts n.toValue.sorted) ∧
    (∀ (c : Codec) members, Blueprint.form.Accepts (.object members) →
      c.HasPlainHostGroups members →
      (∃ b, c.decodeValue (.object members) = .ok b) ∧
      (∀ text, Json.parse text = .ok (.object members) → ∃ b, c.decodeRaw text = .ok b) ∧
      (Value.isSorted (.object members) = true →
        Value.Readable Json.greatestDepth (.object members) →
        ∀ layout, ∃ b, c.decodeRaw (Utf8.encode ((Value.object members).toText layout)) = .ok b)) ∧
    ∀ (c : Codec) members text, c.kinds.ArePlain → Blueprint.form.Accepts (.object members) →
      Json.parse text = .ok (.object members) → ∀ e, c.decode text = .error e →
      (∃ violation, e = .structure violation) ∨
        ∃ hostGroup kind, e = .unsupportedKind hostGroup kind ∧
          SortedMap.get? c.kinds kind = none := by
  refine ⟨Schema.parse_text, ?_, ?_, ?_⟩
  · intro b n hn
    obtain ⟨hcheck, -⟩ := Blueprint.normalize_eq_ok_iff.mp (Blueprint.normalize_of_normalize hn)
    have haccepts := Blueprint.accepts_toValue (Blueprint.isProper_of_check hcheck)
    exact ⟨haccepts, haccepts.sorted⟩
  · intro c members haccepts hplain
    have hdecodes := decodeValue_of_accepts haccepts hplain
    refine ⟨hdecodes, ?_, ?_⟩
    · intro text hparse
      rwa [decodeRaw_of_parse hparse]
    · intro hsorted hreadable layout
      have hparse := Json.parse_toText hreadable.1 hreadable.2 layout
      rw [Value.sorted_of_isSorted hsorted] at hparse
      rwa [decodeRaw_of_parse hparse]
  · intro c members text hkinds haccepts hparse e he
    rw [decode_of_parse hparse] at he
    cases hvalue : c.decodeValue (.object members) with
    | error e' =>
        rw [hvalue] at he
        cases he
        exact .inr (unsupportedKind_of_decodeValue hkinds haccepts hvalue)
    | ok b =>
        rw [hvalue] at he
        change (b.normalize.mapError CodecError.structure) = .error e at he
        cases hnormal : b.normalize with
        | ok n =>
            rw [hnormal] at he
            nomatch he
        | error violation =>
            rw [hnormal] at he
            cases he
            exact .inl ⟨violation, rfl⟩

def ghostKind : Blueprint :=
  { sample with hostGroups := [{ HostGroup.ofName "gateway" with kind := some "ghost" }] }

theorem schema_agrees_sample :
    Blueprint.form.Accepts sample.fill.toValue.sorted ∧
      (∃ b, decodeRaw ⟨.compact, .standard⟩
        (Utf8.encode (sample.fill.toValue.sorted.toText .indented)) = .ok b) ∧
      ∃ e hostGroup kind, decode ⟨.compact, .standard⟩
          (Utf8.encode (ghostKind.fill.toValue.toText .compact)) = .error e ∧
        e = .unsupportedKind hostGroup kind := by
  obtain ⟨-, haccepts, hdecodes, hrefuses⟩ := schema_agrees
  have hnormal : sample.normalize = .ok sample.fill :=
    Blueprint.normalize_eq_ok_iff.mpr ⟨rfl, rfl⟩
  have hghost : ghostKind.normalize = .ok ghostKind.fill :=
    Blueprint.normalize_eq_ok_iff.mpr ⟨rfl, rfl⟩
  refine ⟨(haccepts _ _ hnormal).2, ?_, ?_⟩
  · have hplain : HasPlainHostGroups ⟨.compact, .standard⟩
        (Value.arrange (Value.sortedMembers sample.fill.members)) :=
      .inr ⟨_, rfl, List.forall_mem_singleton.mpr ⟨_, _, rfl, .inr ⟨.inl rfl, rfl⟩, rfl⟩⟩
    exact (hdecodes ⟨.compact, .standard⟩ _ (haccepts _ _ hnormal).2 hplain).2.2
      (by decide) ⟨by decide, by decide⟩ .indented
  · have hkinds : HostGroupKinds.standard.ArePlain := by
      intro kind shape hshape
      rw [HostGroupKinds.standard, SortedMap.get?_insert] at hshape
      split at hshape
      · cases hshape
        rfl
      · nomatch hshape
    have hparse := Json.parse_toText (v := ghostKind.fill.toValue) (by decide) (by decide) .compact
    obtain ⟨e, he⟩ : ∃ e, decode ⟨.compact, .standard⟩
        (Utf8.encode (ghostKind.fill.toValue.toText .compact)) = .error e := by
      rw [decode_of_parse hparse]
      exact ⟨_, rfl⟩
    rcases hrefuses ⟨.compact, .standard⟩ _ _ hkinds (haccepts _ _ hghost).2 hparse e he with
      ⟨violation, rfl⟩ | ⟨hostGroup, kind, rfl, -⟩
    · rw [decode_of_parse hparse] at he
      nomatch he
    · exact ⟨_, hostGroup, kind, he, rfl⟩

/-- A document without host groups in which more arrays and objects stand in one another than can be
read. -/
def deepMembers : List (String × Value) :=
  [("blueprint_name", .text "demo"),
    ("settings", .array [.object [("limits", Value.nestedArrays 124)]])]

/-- A document that the schema describes is refused if it is too deep. -/
theorem decodeRaw_deepDocument :
    Blueprint.form.Accepts (.object deepMembers) ∧
      HasPlainHostGroups ⟨.compact, .standard⟩ deepMembers ∧
      ∀ b, decodeRaw ⟨.compact, .standard⟩
        (Utf8.encode ((Value.object deepMembers).toText .compact)) ≠ .ok b := by
  refine ⟨?_, .inl rfl, ?_⟩
  · have hmatches : Blueprint.namePattern.Matches "demo" :=
      Blueprint.matches_namePattern_iff.mpr (by decide)
    refine .object (by decide) (by decide) ?_ fun _ v _ _ => .any v
    simp only [List.forall_mem_cons]
    refine ⟨?_, nofun, nofun, nofun, ?_, nofun, List.forall_mem_nil _⟩
    · rintro _ ⟨⟩
      exact Form.accepts_pattern hmatches
    · rintro _ ⟨⟩
      refine Form.accepts_array (List.forall_mem_singleton.mpr ?_)
      exact .object (by decide) (List.forall_mem_nil _) (List.forall_mem_nil _)
        fun _ v _ _ => .any v
  · have hfails : (decodeRaw ⟨.compact, .standard⟩
        (Utf8.encode ((Value.object deepMembers).toText .compact))).toOption = none := by
      rw [Value.toText, Utf8.encode, String.toList_ofList]
      decide +kernel
    intro b hb
    rw [hb] at hfails
    cases hfails

end Codec

end ClusterBlueprint
