import ClusterBlueprint.Proofs.Blueprint.Normal
import ClusterBlueprint.Proofs.Codec.Resaving
import ClusterBlueprint.Proofs.Json.Depth

namespace ClusterBlueprint

open Json (Value Decoder)

theorem rel_find?_of_forall₂ {α β : Type} {r : α → β → Prop} {p : α → Bool} {q : β → Bool}
    (hpq : ∀ a b, r a b → p a = q b) {as : List α} {bs : List β} (h : List.Forall₂ r as bs) :
    Option.Rel r (as.find? p) (bs.find? q) := by
  induction h with
  | nil => exact .none
  | @cons a b as bs hab _ ih =>
      rw [List.find?_cons, List.find?_cons, hpq a b hab]
      cases q b with
      | true => exact .some hab
      | false => exact ih

namespace Blueprint

variable {b b' : Blueprint}

theorem hostGroup?_eq_none_iff {name : String} :
    b.hostGroup? name = none ↔ ∀ g ∈ b.hostGroups, g.name ≠ name := by
  simp [hostGroup?]

theorem hostGroup?_eq_some_iff (hnames : (b.hostGroups.map HostGroup.name).Nodup) {name : String}
    {g : HostGroup} : b.hostGroup? name = some g ↔ g ∈ b.hostGroups ∧ g.name = name := by
  have hfound : ∀ g, b.hostGroup? name = some g → g ∈ b.hostGroups ∧ g.name = name := by
    intro g h
    rw [hostGroup?] at h
    exact ⟨List.mem_of_find?_eq_some h, by simpa using List.find?_some h⟩
  constructor
  · exact hfound g
  · rintro ⟨hg, hname⟩
    cases h : b.hostGroup? name with
    | none => exact absurd hname (hostGroup?_eq_none_iff.mp h g hg)
    | some g' =>
        obtain ⟨hg', hname'⟩ := hfound g' h
        rw [List.inj_on_of_nodup_map hnames hg' hg (hname'.trans hname.symm)]

theorem effectiveConfiguration_of_mem (hnames : (b.hostGroups.map HostGroup.name).Nodup)
    {g : HostGroup} (hg : g ∈ b.hostGroups) :
    b.effectiveConfiguration g.name = some (b.configuration.mergedWith g.configuration) := by
  rw [effectiveConfiguration, (hostGroup?_eq_some_iff hnames).mpr ⟨hg, rfl⟩]
  rfl

theorem effectiveConfiguration_eq_none_iff {name : String} :
    b.effectiveConfiguration name = none ↔ ∀ g ∈ b.hostGroups, g.name ≠ name := by
  rw [effectiveConfiguration, Option.map_eq_none_iff, hostGroup?_eq_none_iff]

/-- Effective configurations depend on the configurations of a blueprint only, and not on the order
inside of them. -/
theorem ReadBack.effectiveConfiguration (h : ReadBack b b') (name : String) :
    Option.Rel (fun e' e => e'.agrees e = true) (b'.effectiveConfiguration name)
      (b.effectiveConfiguration name) := by
  have hnames : ∀ g' g, HostGroup.IsCopyOf g' g → (g'.name == name) = (g.name == name) := by
    intro g' g hcopy
    rw [(sameHostGroup_iff.mp hcopy.same).1]
  have hfound := rel_find?_of_forall₂ hnames h.hostGroups
  rw [Blueprint.effectiveConfiguration, Blueprint.effectiveConfiguration, hostGroup?, hostGroup?]
  generalize b'.hostGroups.find? _ = found', b.hostGroups.find? _ = found at hfound
  cases hfound with
  | none => exact .none
  | some hcopy =>
      exact .some (Configuration.agrees_mergedWith h.configuration.agrees hcopy.configuration.agrees)

theorem ReadBack.allValues_settings (h : ReadBack b b') {p : Value → Prop}
    (hp : ∀ entry ∈ b'.settings, entry.AllValues p) : ∀ entry ∈ b.settings, entry.AllValues p := by
  intro entry hentry key v hv
  obtain ⟨entry', hentry', hcopy⟩ := Decoder.exists_of_mem_of_forall₂ h.settings.flip hentry
  obtain ⟨w, hw, heq⟩ := hcopy.related.symm.found hv
  exact heq ▸ hp entry' hentry' key w hw

end Blueprint

namespace Codec

variable {c c' : Codec} {b : Blueprint}

/-- What a document is decoded to is the normal form of something that has been read back of the
blueprint in it. No bound on the depth is needed here: where the reader of texts gives up, nothing
is decoded. -/
theorem readBack_of_decode_encode (hconfiguration : b.configuration.Grounded)
    (hhostGroups : ∀ g ∈ b.hostGroups, g.configuration.Grounded ∧ c'.kinds.ReadsPlainly g)
    (hsettings : b.HasWholeSettings) {b' : Blueprint}
    (h : c'.decode (Utf8.encode (c.encode b)) = .ok b') :
    ∃ b₀, b.ReadBack b₀ ∧ b' = b₀.fill ∧ b.HasReadableSettings := by
  obtain ⟨v, b₀, hparse, hvalue, hnormal⟩ := decode_eq_ok h
  have htidy := Json.tidy_of_parse hparse
  obtain rfl := Json.eq_sorted_of_parse_toText (Blueprint.isWhole_toValue hsettings) hparse
  obtain ⟨b₁, hvalue', hback⟩ := decodeValue_toValue_sorted c' hconfiguration hhostGroups hsettings
  obtain rfl : b₀ = b₁ := Except.ok.inj (hvalue.symm.trans hvalue')
  refine ⟨b₀, hback, (Blueprint.normalize_eq_ok_iff.mp hnormal).2, ?_⟩
  intro entry hentry m hm
  obtain ⟨hsorted, hdepth⟩ := hback.allValues_settings (tidy_settings_of_decodeValue htidy hvalue)
    entry hentry m.1 m.2 (OrderedMap.get?_eq_some_iff.mpr hm)
  exact ⟨hsorted, (hsettings entry hentry m hm).2, hdepth⟩

/-- A blueprint that has a normal form is decoded from its own document unless its settings are too
deep for a reader. -/
theorem exists_decode_encode_iff {n : Blueprint} (h : b.normalize = .ok n)
    (hconfiguration : b.configuration.Grounded)
    (hhostGroups : ∀ g ∈ b.hostGroups, g.configuration.Grounded ∧ c'.kinds.ReadsPlainly g)
    (hsettings : b.HasWholeSettings) :
    (∃ b', c'.decode (Utf8.encode (c.encode b)) = .ok b') ↔ b.HasReadableSettings := by
  constructor
  · rintro ⟨b', hb'⟩
    obtain ⟨-, -, -, hreadable⟩ := readBack_of_decode_encode hconfiguration hhostGroups hsettings hb'
    exact hreadable
  · intro hreadable
    obtain ⟨b₀, hraw, hback⟩ := decodeRaw_encode c c' hconfiguration hhostGroups hreadable
    obtain ⟨b', hnormal, -⟩ := hback.normalize.2 _ h
    refine ⟨b', ?_⟩
    rw [decode_of_decodeRaw hraw, hnormal]
    rfl

/-- In a blueprint that has a normal form, every host group gets its own configuration over that of
the blueprint, and nothing else gets one. Neither the normal form nor what is decoded from a document
of the blueprint says anything else; a document is decoded unless its settings are too deep. -/
theorem effectiveConfiguration_of_normalize {n : Blueprint} (h : b.normalize = .ok n) :
    (∀ (i : Nat) (g : HostGroup), b.hostGroups[i]? = some g →
        b.effectiveConfiguration g.name = some (b.configuration.mergedWith g.configuration) ∧
          (b.configuration.mergedWith g.configuration).IsOverlay b.configuration g.configuration) ∧
      (∀ name, (∀ g ∈ b.hostGroups, g.name ≠ name) → b.effectiveConfiguration name = none) ∧
      (∀ name, n.effectiveConfiguration name = b.effectiveConfiguration name) ∧
      ∀ c c' : Codec, b.HasBuiltConfigurations → b.HasWholeSettings →
        (∀ g ∈ b.hostGroups, ∃ shape, SortedMap.get? c'.kinds g.effectiveKind = some shape ∧
          ∀ v, shape v = HostGroupShape.plain v) →
        (∀ b', c'.decode (Utf8.encode (c.encode b)) = .ok b' → ∀ name,
          Option.Rel (fun e' e => e'.agrees e = true) (b'.effectiveConfiguration name)
            (b.effectiveConfiguration name)) ∧
        ((∃ b', c'.decode (Utf8.encode (c.encode b)) = .ok b') ↔ b.HasReadableSettings) := by
  obtain ⟨hcheck, rfl⟩ := Blueprint.normalize_eq_ok_iff.mp h
  obtain ⟨-, -, -, -, hnames⟩ := Blueprint.check_eq_ok_iff.mp hcheck
  refine ⟨?_, ?_, b.effectiveConfiguration_fill, ?_⟩
  · intro i g hg
    exact ⟨Blueprint.effectiveConfiguration_of_mem hnames (List.mem_of_getElem? hg),
      Configuration.isOverlay_mergedWith _ _⟩
  · intro name hname
    exact Blueprint.effectiveConfiguration_eq_none_iff.mpr hname
  · intro c c' hbuilt hsettings hkinds
    have hconfiguration := hbuilt.1.grounded
    have hhostGroups := HostGroupKinds.readsPlainly_of_built hbuilt hkinds
    refine ⟨fun b' hb' name => ?_,
      exists_decode_encode_iff h hconfiguration hhostGroups hsettings⟩
    obtain ⟨b₀, hback, rfl, -⟩ := readBack_of_decode_encode hconfiguration hhostGroups hsettings hb'
    rw [Blueprint.effectiveConfiguration_fill]
    exact hback.effectiveConfiguration name

/-- Two host groups, one of which has a value of its own for a property of the blueprint. -/
def overridden : Blueprint :=
  { sample with
    hostGroups := [{ HostGroup.ofName "master" with
      configuration := Configuration.setProperty ∅ "hdfs-site" "dfs.replication" "3" },
      .ofName "worker"]
    configuration := Configuration.setProperty ∅ "hdfs-site" "dfs.replication" "1" }

theorem hasBuiltConfigurations_overridden : overridden.HasBuiltConfigurations :=
  ⟨.setProperty .empty _ _ _,
    List.forall_mem_cons.mpr ⟨.setProperty .empty _ _ _, List.forall_mem_singleton.mpr .empty⟩⟩

theorem effectiveConfiguration_of_normalize_sample :
    ∃ b' master worker,
      Codec.decode ⟨.compact, .standard⟩ (Utf8.encode (encode ⟨.indented, .standard⟩ overridden)) =
        .ok b' ∧
      overridden.effectiveConfiguration "master" = some master ∧
      overridden.effectiveConfiguration "worker" = some worker ∧
      master.property? "hdfs-site" "dfs.replication" = some "3" ∧
      worker.property? "hdfs-site" "dfs.replication" = some "1" ∧
      overridden.effectiveConfiguration "edge" = none ∧
      Option.Rel (fun e' e => e'.agrees e = true) (b'.effectiveConfiguration "master")
        (some master) := by
  have hnormal : overridden.normalize = .ok overridden.fill :=
    Blueprint.normalize_eq_ok_iff.mpr ⟨rfl, rfl⟩
  have hsettings : overridden.HasReadableSettings :=
    List.forall_mem_singleton.mpr (List.forall_mem_singleton.mpr ⟨by decide, by decide, by decide⟩)
  obtain ⟨hgroups, hothers, -, hdecoded⟩ := effectiveConfiguration_of_normalize hnormal
  obtain ⟨hsame, hexists⟩ := hdecoded ⟨.indented, .standard⟩ ⟨.compact, .standard⟩
    hasBuiltConfigurations_overridden hsettings.hasWholeSettings
    (List.forall_mem_cons.mpr ⟨⟨.plain, rfl, fun _ => rfl⟩,
      List.forall_mem_singleton.mpr ⟨.plain, rfl, fun _ => rfl⟩⟩)
  obtain ⟨b', hb'⟩ := hexists.mpr hsettings
  obtain ⟨hmaster, hmasterOverlay⟩ := hgroups 0 _ rfl
  obtain ⟨hworker, hworkerOverlay⟩ := hgroups 1 _ rfl
  refine ⟨b', _, _, hb', hmaster, hworker, ?_, ?_, ?_, ?_⟩
  · exact (hmasterOverlay.properties _ _).trans (by decide)
  · exact (hworkerOverlay.properties _ _).trans (by decide)
  · exact hothers _ (by decide)
  · exact hmaster ▸ hsame b' hb' "master"

def overriddenDeep : Blueprint :=
  { overridden with settings := [.ofList [("limits", Value.nestedArrays 124)]] }

/-- The effective configuration of a host group is lost where the settings are too deep, since then
the document of the blueprint is refused. -/
theorem decode_encode_overriddenDeep :
    overriddenDeep.normalize = .ok overriddenDeep.fill ∧
      overriddenDeep.HasBuiltConfigurations ∧ overriddenDeep.HasWholeSettings ∧
      (∀ g ∈ overriddenDeep.hostGroups,
        SortedMap.get? HostGroupKinds.standard g.effectiveKind = some HostGroupShape.plain) ∧
      (∃ master, overriddenDeep.effectiveConfiguration "master" = some master ∧
        master.property? "hdfs-site" "dfs.replication" = some "3") ∧
      ∀ b', Codec.decode ⟨.compact, .standard⟩
        (Utf8.encode (encode ⟨.compact, .standard⟩ overriddenDeep)) ≠ .ok b' := by
  have hnormal : overriddenDeep.normalize = .ok overriddenDeep.fill :=
    Blueprint.normalize_eq_ok_iff.mpr ⟨rfl, rfl⟩
  have hbuilt : overriddenDeep.HasBuiltConfigurations := hasBuiltConfigurations_overridden
  have hwhole : overriddenDeep.HasWholeSettings :=
    List.forall_mem_singleton.mpr (List.forall_mem_singleton.mpr
      ⟨Value.isSorted_nestedArrays 124, Value.isWhole_nestedArrays 124⟩)
  have hkinds : ∀ g ∈ overriddenDeep.hostGroups,
      SortedMap.get? HostGroupKinds.standard g.effectiveKind = some HostGroupShape.plain :=
    List.forall_mem_cons.mpr ⟨rfl, List.forall_mem_singleton.mpr rfl⟩
  refine ⟨hnormal, hbuilt, hwhole, hkinds, ⟨_, rfl, by decide⟩, ?_⟩
  intro b' hb'
  have hhostGroups := HostGroupKinds.readsPlainly_of_built hbuilt
    fun g hg => ⟨.plain, hkinds g hg, fun _ => rfl⟩
  have hreadable : overriddenDeep.HasReadableSettings :=
    (exists_decode_encode_iff hnormal hbuilt.1.grounded hhostGroups hwhole).mp ⟨b', hb'⟩
  have hdepth : (Value.nestedArrays 124).depth ≤ 124 :=
    (List.forall_mem_singleton.mp (List.forall_mem_singleton.mp hreadable)).2.2
  rw [Value.depth_nestedArrays] at hdepth
  exact absurd hdepth (by decide)

end Codec

end ClusterBlueprint
