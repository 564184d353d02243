import ClusterBlueprint.Codec.Basic
import ClusterBlueprint.Proofs.Blueprint.Structure

namespace ClusterBlueprint

open Json (Value)

def Blueprint.HasBuiltConfigurations (b : Blueprint) : Prop :=
  b.configuration.Built ∧ ∀ g ∈ b.hostGroups, g.configuration.Built

namespace HostGroupKinds

theorem resolve_toValue_sorted {kinds : HostGroupKinds} {g : HostGroup}
    (hg : g.configuration.Grounded) {shape : HostGroupShape}
    (hshape : SortedMap.get? kinds g.effectiveKind = some shape)
    (hplain : shape g.toValue.sorted = HostGroupShape.plain g.toValue.sorted) :
    ∃ g', kinds.resolve g.toValue.sorted = .ok g' ∧ g'.IsCopyOf g := by
  obtain ⟨g', hread, hcopy⟩ := HostGroup.ofValue_toValue_sorted hg
  have hconvert : shape g.toValue.sorted = .ok g' := by
    rw [hplain, HostGroupShape.plain, Json.Decoder.convert, hread]
    rfl
  obtain ⟨-, hkind, -⟩ := g.member?_members
  have hkind' := Value.member?_arrange_sortedMembers g.nodup_keys_members "kind"
  rw [hkind, Option.map_map] at hkind'
  rw [HostGroup.toValue_eq, Value.sorted_object] at hconvert ⊢
  refine ⟨g', ?_, hcopy⟩
  cases hk : g.kind with
  | none =>
      rw [hk, Option.map_none] at hkind'
      rw [HostGroup.effectiveKind, hk, Option.getD_none] at hshape
      simp only [resolve, hkind', hshape, hconvert, Except.mapError]
  | some kind =>
      rw [hk, Option.map_some, Function.comp_apply, Value.sorted_text] at hkind'
      rw [HostGroup.effectiveKind, hk, Option.getD_some] at hshape
      simp only [resolve, hkind', hshape, hconvert, Except.mapError]

/-- Whether a kind is known and decodes the values of its host groups like ordinary ones. -/
def ReadsPlainly (kinds : HostGroupKinds) (g : HostGroup) : Prop :=
  ∃ shape, SortedMap.get? kinds g.effectiveKind = some shape ∧
    shape g.toValue.sorted = HostGroupShape.plain g.toValue.sorted

theorem readsPlainly_of_built {kinds : HostGroupKinds} {b : Blueprint}
    (hbuilt : b.HasBuiltConfigurations)
    (hkinds : ∀ g ∈ b.hostGroups, ∃ shape, SortedMap.get? kinds g.effectiveKind = some shape ∧
      ∀ v, shape v = HostGroupShape.plain v) :
    ∀ g ∈ b.hostGroups, g.configuration.Grounded ∧ kinds.ReadsPlainly g := by
  intro g hg
  obtain ⟨shape, hshape, hplain⟩ := hkinds g hg
  exact ⟨(hbuilt.2 g hg).grounded, shape, hshape, hplain _⟩

theorem resolveAll_toValue_sorted {kinds : HostGroupKinds} {gs : List HostGroup}
    (hgs : ∀ g ∈ gs, g.configuration.Grounded ∧ kinds.ReadsPlainly g) :
    ∃ gs', kinds.resolveAll (gs.map fun g => g.toValue.sorted) = .ok gs' ∧
      List.Forall₂ HostGroup.IsCopyOf gs' gs := by
  induction gs with
  | nil => exact ⟨[], rfl, .nil⟩
  | cons g gs ih =>
      rw [List.forall_mem_cons] at hgs
      obtain ⟨⟨hg, shape, hshape, hplain⟩, hgs⟩ := hgs
      obtain ⟨g', hread, hcopy⟩ := resolve_toValue_sorted hg hshape hplain
      obtain ⟨gs', hreads, hcopies⟩ := ih hgs
      refine ⟨g' :: gs', ?_, .cons hcopy hcopies⟩
      simp only [List.map_cons, resolveAll, hread, hreads, bind, Except.bind]

end HostGroupKinds

namespace Codec

theorem decodeRaw_of_parse {c : Codec} {text : Bytes} {v : Value} (h : Json.parse text = .ok v) :
    c.decodeRaw text = c.decodeValue v := by
  rw [decodeRaw, h]
  rfl

theorem decodeValue_toValue_sorted (c : Codec) {b : Blueprint}
    (hconfiguration : b.configuration.Grounded)
    (hhostGroups : ∀ g ∈ b.hostGroups, g.configuration.Grounded ∧ c.kinds.ReadsPlainly g)
    (hsettings : b.HasWholeSettings) :
    ∃ b', c.decodeValue b.toValue.sorted = .ok b' ∧ b.ReadBack b' := by
  obtain ⟨others, hothers, hback⟩ := Blueprint.ofValue_otherMembers hconfiguration hsettings
  obtain ⟨hostGroups, hgroups, hcopies⟩ := HostGroupKinds.resolveAll_toValue_sorted hhostGroups
  have hvalues : hostGroupValues (Value.arrange (Value.sortedMembers b.members)) =
      .ok (b.hostGroups.map fun g => g.toValue.sorted) := by
    obtain ⟨-, -, hfound, -⟩ := b.member?_members
    have hmember := Value.member?_arrange_sortedMembers b.nodup_keys_members "host_groups"
    rw [hfound, Option.map_some, Value.sorted_array, List.map_map] at hmember
    simp only [hostGroupValues, hostGroupsField, hmember]
    rfl
  rw [Blueprint.otherMembers] at hothers
  rw [Blueprint.toValue_eq, Value.sorted_object]
  refine ⟨{ others with hostGroups }, ?_, ?_⟩
  · simp only [decodeValue, hvalues, hostGroupsField, bind, Except.bind, Json.Decoder.convert,
      hothers, Except.mapError, hgroups]
  · exact ⟨hback.name, hback.stackIds, hcopies, hback.configuration, hback.settings, hback.security⟩

theorem decodeRaw_encode (c c' : Codec) {b : Blueprint} (hconfiguration : b.configuration.Grounded)
    (hhostGroups : ∀ g ∈ b.hostGroups, g.configuration.Grounded ∧ c'.kinds.ReadsPlainly g)
    (hsettings : b.HasReadableSettings) :
    ∃ b', c'.decodeRaw (Utf8.encode (c.encode b)) = .ok b' ∧ b.ReadBack b' := by
  obtain ⟨hwhole, hdepth⟩ := Blueprint.readable_toValue hsettings
  rw [encode, decodeRaw_of_parse (Json.parse_toText hwhole hdepth c.layout)]
  exact decodeValue_toValue_sorted c' hconfiguration hhostGroups hsettings.hasWholeSettings

theorem decode_of_parse {c : Codec} {text : Bytes} {v : Value} (h : Json.parse text = .ok v) :
    c.decode text = c.decodeValue v >>= normalize := by
  rw [decode, decodeRaw_of_parse h]

theorem decode_of_decodeRaw {c : Codec} {text : Bytes} {b : Blueprint}
    (h : c.decodeRaw text = .ok b) : c.decode text = b.normalize.mapError .structure := by
  rw [decode, h]
  rfl

/-- What is decoded from the document of a blueprint is the normal form of the blueprint, up to the
order inside its maps; the stack ids keep their order. A blueprint without a normal form is refused
for the same fault. -/
theorem decode_encode_eq_normalize (c c' : Codec) {b : Blueprint}
    (hbuilt : b.HasBuiltConfigurations) (hsettings : b.HasReadableSettings)
    (hkinds : ∀ g ∈ b.hostGroups, ∃ shape, SortedMap.get? c'.kinds g.effectiveKind = some shape ∧
      ∀ v, shape v = HostGroupShape.plain v) :
    (∀ e, b.normalize = .error e →
        c'.decode (Utf8.encode (c.encode b)) = .error (.structure e)) ∧
      (∀ n, b.normalize = .ok n →
        ∃ b', c'.decode (Utf8.encode (c.encode b)) = .ok b' ∧ b'.agrees n = true ∧
          b'.stackIds = n.stackIds) ∧
      ∀ a : Blueprint, a.normalize = .ok b →
        ∃ b', c'.decode (Utf8.encode (c.encode b)) = .ok b' ∧ b'.agrees b = true ∧
          b'.stackIds = b.stackIds := by
  have hhostGroups := HostGroupKinds.readsPlainly_of_built hbuilt hkinds
  obtain ⟨b', hraw, hback⟩ := decodeRaw_encode c c' hbuilt.1.grounded hhostGroups hsettings
  obtain ⟨herror, hok⟩ := hback.normalize
  have hnormal : ∀ n, b.normalize = .ok n → ∃ b',
      c'.decode (Utf8.encode (c.encode b)) = .ok b' ∧ b'.agrees n = true ∧
        b'.stackIds = n.stackIds := by
    intro n hn
    obtain ⟨n', hn', hagrees, hstackIds⟩ := hok n hn
    refine ⟨n', ?_, hagrees, hstackIds⟩
    rw [decode_of_decodeRaw hraw, hn']
    rfl
  refine ⟨?_, hnormal, ?_⟩
  · intro e he
    rw [decode_of_decodeRaw hraw, herror e he]
    rfl
  · intro a ha
    exact hnormal b (Blueprint.normalize_of_normalize ha)

/-- A blueprint with something in every part of it, the stack under a key of its own. -/
def sample : Blueprint where
  name := "demo"
  stackIds := .ofList [("first", ⟨"HDP", "3.0", by decide, by decide⟩)]
  hostGroups := [{ HostGroup.ofName "master" with
    components := [⟨"NAMENODE", none⟩]
    configuration := Configuration.setProperty ∅ "core-site" "fs.defaultFS" "hdfs://nn:8020" }]
  configuration := Configuration.setAttribute ∅ "hdfs-site" "dfs.dir" "final" "true"
  settings := [.ofList [("limits", .array [.number (.whole 5 (by decide))])]]
  security := .kerberos "kdc"

theorem decode_encode_eq_normalize_sample :
    ∃ b', Codec.decode ⟨.compact, .standard⟩ (Utf8.encode (encode ⟨.indented, .standard⟩ sample)) =
        .ok b' ∧ b'.agrees sample.fill = true ∧ b'.stackIds = sample.fill.stackIds := by
  have hbuilt : sample.HasBuiltConfigurations :=
    ⟨.setAttribute .empty _ _ _ _, List.forall_mem_singleton.mpr (.setProperty .empty _ _ _)⟩
  have hsettings : sample.HasReadableSettings :=
    List.forall_mem_singleton.mpr (List.forall_mem_singleton.mpr ⟨by decide, by decide, by decide⟩)
  have hnormal : sample.normalize = .ok sample.fill :=
    Blueprint.normalize_eq_ok_iff.mpr ⟨rfl, rfl⟩
  exact (decode_encode_eq_normalize ⟨.indented, .standard⟩ ⟨.compact, .standard⟩ hbuilt hsettings
    (List.forall_mem_singleton.mpr ⟨.plain, rfl, fun _ => rfl⟩)).2.1 _ hnormal

end Codec

end ClusterBlueprint
