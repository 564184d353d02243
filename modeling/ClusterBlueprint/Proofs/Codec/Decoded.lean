import ClusterBlueprint.Proofs.Codec
import ClusterBlueprint.Proofs.Result

namespace ClusterBlueprint

open Json (Value Decoder)
open Result (bind_eq_ok map_eq_ok mapError_eq_ok)

theorem Configuration.grounded_of_given {found : Option Value} {c : Configuration}
    (h : match found with
      | some v => decoder.ofValue v = .ok c
      | none => some ∅ = some c) : c.Grounded := by
  cases found with
  | none =>
      cases h
      exact grounded_empty
  | some v =>
      obtain ⟨entries, -, rfl⟩ := map_eq_ok h
      exact grounded_ofEntries entries

theorem HostGroup.ofValue_eq_ok {members : List (String × Value)} {g : HostGroup}
    (h : decoder.ofValue (.object members) = .ok g) :
    g.configuration.Grounded ∧
      match Value.member? members "kind" with
      | some v => (Decoder.nullable .text).ofValue v = .ok g.kind
      | none => g.kind = none := by
  obtain ⟨⟨name, kind, cardinality, components, configuration, _⟩, hgives, rfl⟩ :=
    Decoder.gives_of_ofValue_record (by decide) h
  obtain ⟨-, hkind, -, -, hconfiguration, -⟩ := hgives
  refine ⟨Configuration.grounded_of_given hconfiguration, ?_⟩
  cases hfound : Value.member? members "kind" with
  | none =>
      rw [hfound] at hkind
      cases hkind
      rfl
  | some v =>
      rw [hfound] at hkind
      exact hkind

namespace HostGroupShape

/-- Whether a shape is that of ordinary host groups, or that with a cardinality for those that have
none. -/
def IsOrdinary (shape : HostGroupShape) : Prop :=
  shape = plain ∨ ∃ missing : HostGroup → String, ∀ v,
    shape v = (plain v).map fun g => { g with cardinality := some (g.cardinality.getD (missing g)) }

theorem isOrdinary_plain : plain.IsOrdinary :=
  .inl rfl

theorem isOrdinary_withCardinality (cardinality : String) :
    (withCardinality cardinality).IsOrdinary :=
  .inr ⟨fun _ => cardinality, fun _ => rfl⟩

theorem IsOrdinary.eq_ok {shape : HostGroupShape} (hshape : shape.IsOrdinary) {v : Value}
    {g : HostGroup} (h : shape v = .ok g) :
    ∃ g', plain v = .ok g' ∧ g.kind = g'.kind ∧ g.configuration = g'.configuration := by
  rcases hshape with rfl | ⟨missing, hshape⟩
  · exact ⟨g, h, rfl, rfl⟩
  · rw [hshape] at h
    obtain ⟨g', hg', rfl⟩ := map_eq_ok h
    exact ⟨g', hg', rfl, rfl⟩

theorem IsOrdinary.eq_plain {shape : HostGroupShape} (hshape : shape.IsOrdinary) {v : Value}
    {g : HostGroup} (h : plain v = .ok g) (hcardinality : g.cardinality ≠ none) :
    shape v = plain v := by
  rcases hshape with rfl | ⟨missing, hshape⟩
  · rfl
  · rw [hshape, h]
    obtain ⟨name, kind, cardinality, components, configuration⟩ := g
    cases cardinality with
    | none => exact absurd rfl hcardinality
    | some s => rfl

end HostGroupShape

namespace HostGroupKinds

def AreOrdinary (kinds : HostGroupKinds) : Prop :=
  ∀ kind shape, SortedMap.get? kinds kind = some shape → shape.IsOrdinary

theorem areOrdinary_register {kinds : HostGroupKinds} (hkinds : kinds.AreOrdinary)
    {shape : HostGroupShape} (hshape : shape.IsOrdinary) (kind : String) :
    (kinds.register kind shape).AreOrdinary := by
  intro kind' shape' hshape'
  rw [register, SortedMap.get?_insert] at hshape'
  split at hshape'
  · cases hshape'
    exact hshape
  · exact hkinds kind' shape' hshape'

theorem areOrdinary_standard : standard.AreOrdinary := by
  apply areOrdinary_register ?_ HostGroupShape.isOrdinary_plain
  intro kind shape h
  rw [SortedMap.get?_empty] at h
  nomatch h

/-- The kind of an object; the standard one where it gives none. -/
def IsOfKind (members : List (String × Value)) (kind : String) : Prop :=
  Value.member? members "kind" = some (.text kind) ∨
    (Value.member? members "kind" = none ∨ Value.member? members "kind" = some .null) ∧
      kind = HostGroup.standardKind

section

variable {kinds : HostGroupKinds} {members : List (String × Value)} {kind : String}

theorem IsOfKind.resolve_of_unknown (h : IsOfKind members kind)
    (hshape : SortedMap.get? kinds kind = none) :
    kinds.resolve (.object members) = .error (.unsupportedKind (nameFor members) kind) := by
  rcases h with hkind | ⟨hkind | hkind, rfl⟩
  all_goals simp only [resolve, hkind, hshape]

theorem IsOfKind.resolve_of_known (h : IsOfKind members kind) {shape : HostGroupShape}
    (hshape : SortedMap.get? kinds kind = some shape) :
    kinds.resolve (.object members) =
      (shape (.object members)).mapError fun e =>
        .parse (.malformedHostGroup (nameFor members) e) := by
  rcases h with hkind | ⟨hkind | hkind, rfl⟩
  all_goals simp only [resolve, hkind, hshape]

theorem exists_isOfKind_or (members : List (String × Value)) :
    (∃ kind, IsOfKind members kind) ∨
      ∃ found, Value.member? members "kind" = some found ∧ found ≠ .null ∧
        ∀ kind, found ≠ .text kind := by
  cases hfound : Value.member? members "kind" with
  | none => exact .inl ⟨_, .inr ⟨.inl hfound, rfl⟩⟩
  | some found =>
      cases found with
      | null => exact .inl ⟨_, .inr ⟨.inr hfound, rfl⟩⟩
      | text kind => exact .inl ⟨kind, .inl hfound⟩
      | _ => exact .inr ⟨_, rfl, by rintro ⟨⟩, by rintro _ ⟨⟩⟩

theorem resolve_of_kindNotText {found : Value} (hfound : Value.member? members "kind" = some found)
    (hnull : found ≠ .null) (htext : ∀ kind, found ≠ .text kind) :
    kinds.resolve (.object members) = .error (.parse (.kindNotText (nameFor members) found)) := by
  cases found with
  | null => exact absurd rfl hnull
  | text kind => exact absurd rfl (htext kind)
  | _ => simp only [resolve, hfound]

end

theorem resolve_eq_ok {kinds : HostGroupKinds} {v : Value} {g : HostGroup}
    (h : kinds.resolve v = .ok g) :
    ∃ members kind shape, v = .object members ∧ IsOfKind members kind ∧
      SortedMap.get? kinds kind = some shape ∧ shape v = .ok g := by
  cases v with
  | object members =>
      rcases exists_isOfKind_or members with ⟨kind, hkind⟩ | ⟨found, hfound, hnull, htext⟩
      · cases hshape : SortedMap.get? kinds kind with
        | none =>
            rw [hkind.resolve_of_unknown hshape] at h
            cases h
        | some shape =>
            rw [hkind.resolve_of_known hshape] at h
            exact ⟨members, kind, shape, rfl, hkind, hshape, mapError_eq_ok h⟩
      · rw [resolve_of_kindNotText hfound hnull htext] at h
        cases h
  | _ => cases h

def Knows (kinds : HostGroupKinds) (g : HostGroup) : Prop :=
  g.configuration.Grounded ∧ ∃ shape, SortedMap.get? kinds g.effectiveKind = some shape

theorem knows_of_resolve {kinds : HostGroupKinds} (hkinds : kinds.AreOrdinary) {v : Value}
    {g : HostGroup} (h : kinds.resolve v = .ok g) : kinds.Knows g := by
  obtain ⟨members, kind, shape, rfl, hkind, hshape, hread⟩ := resolve_eq_ok h
  obtain ⟨g', hplain, hsame, hconfiguration⟩ := (hkinds kind shape hshape).eq_ok hread
  obtain ⟨hgrounded, hfound⟩ := HostGroup.ofValue_eq_ok (mapError_eq_ok hplain)
  have heffective : g.effectiveKind = kind := by
    rw [HostGroup.effectiveKind, hsame]
    rcases hkind with hkind | ⟨hkind | hkind, rfl⟩
    · rw [hkind] at hfound
      have hsome : some kind = g'.kind := Except.ok.inj hfound
      rw [← hsome]
      rfl
    · rw [hkind] at hfound
      rw [hfound]
      rfl
    · rw [hkind] at hfound
      have hnone : none = g'.kind := Except.ok.inj hfound
      rw [← hnone]
      rfl
  exact ⟨hconfiguration ▸ hgrounded, shape, heffective ▸ hshape⟩

theorem knows_of_resolveAll {kinds : HostGroupKinds} (hkinds : kinds.AreOrdinary) {vs : List Value}
    {gs : List HostGroup} (h : kinds.resolveAll vs = .ok gs) : ∀ g ∈ gs, kinds.Knows g := by
  induction vs generalizing gs with
  | nil =>
      cases h
      exact List.forall_mem_nil _
  | cons v vs ih =>
      obtain ⟨g, hg, h⟩ := bind_eq_ok h
      obtain ⟨gs', hgs, h⟩ := bind_eq_ok h
      cases h
      exact List.forall_mem_cons.mpr ⟨knows_of_resolve hkinds hg, ih hgs⟩

theorem Knows.readsPlainly {kinds : HostGroupKinds} (hkinds : kinds.AreOrdinary) {g : HostGroup}
    (h : kinds.Knows g) (hcardinality : g.cardinality ≠ none) : kinds.ReadsPlainly g := by
  obtain ⟨hgrounded, shape, hshape⟩ := h
  obtain ⟨g', hread, hcopy⟩ := HostGroup.ofValue_toValue_sorted hgrounded
  obtain ⟨-, -, hcardinality', -⟩ := Blueprint.sameHostGroup_iff.mp hcopy.same
  have hplain : HostGroupShape.plain g.toValue.sorted = .ok g' := by
    rw [HostGroupShape.plain, Decoder.convert, hread]
    rfl
  exact ⟨shape, hshape, (hkinds _ shape hshape).eq_plain hplain (hcardinality' ▸ hcardinality)⟩

end HostGroupKinds

namespace Codec

/-- Behind a decoded blueprint stand its host groups and what the other members of its document are
decoded to. -/
theorem parts_of_decodeValue {c : Codec} {members : List (String × Value)} {b : Blueprint}
    (h : c.decodeValue (.object members) = .ok b) :
    ∃ values hostGroups others, hostGroupValues members = .ok values ∧
      c.kinds.resolveAll values = .ok hostGroups ∧
      Blueprint.decoder.ofValue (.object (SortedMap.eraseEntry hostGroupsField members)) =
        .ok others ∧
      b = { others with hostGroups } := by
  rw [decodeValue] at h
  obtain ⟨values, hvalues, h⟩ := bind_eq_ok h
  obtain ⟨others, hothers, h⟩ := bind_eq_ok h
  obtain ⟨hostGroups, hhostGroups, h⟩ := bind_eq_ok h
  cases h
  exact ⟨values, hostGroups, others, hvalues, hhostGroups,
    mapError_eq_ok (mapError_eq_ok hothers), rfl⟩

theorem decodeValue_eq_ok {c : Codec} (hkinds : c.kinds.AreOrdinary) {v : Value} {b : Blueprint}
    (h : c.decodeValue v = .ok b) :
    b.configuration.Grounded ∧ ∀ g ∈ b.hostGroups, c.kinds.Knows g := by
  cases v with
  | object members =>
      obtain ⟨values, hostGroups, others, -, hhostGroups, hothers, rfl⟩ := parts_of_decodeValue h
      obtain ⟨⟨_, _, _, configuration, _⟩, hgives, rfl⟩ :=
        Decoder.gives_of_ofValue_record (by decide) hothers
      obtain ⟨-, -, -, hconfiguration, -⟩ := hgives
      exact ⟨Configuration.grounded_of_given hconfiguration,
        HostGroupKinds.knows_of_resolveAll hkinds hhostGroups⟩
  | _ => cases h

/-- A decoded blueprint is the normal form of what its document describes. -/
theorem decode_eq_ok {c : Codec} {text : Bytes} {n : Blueprint} (h : c.decode text = .ok n) :
    ∃ v b, Json.parse text = .ok v ∧ c.decodeValue v = .ok b ∧ b.normalize = .ok n := by
  obtain ⟨b, hraw, hnormal⟩ := bind_eq_ok h
  obtain ⟨v, hparse, hvalue⟩ := bind_eq_ok hraw
  exact ⟨v, b, mapError_eq_ok hparse, hvalue, mapError_eq_ok hnormal⟩

/-- The normal form of what a document describes can be read back: its configurations are grounded,
and its host groups are decoded like ordinary ones. -/
theorem grounded_of_decodeValue {c : Codec} (hkinds : c.kinds.AreOrdinary) {v : Value}
    {b n : Blueprint} (hvalue : c.decodeValue v = .ok b) (hnormal : b.normalize = .ok n) :
    n.configuration.Grounded ∧
      ∀ g ∈ n.hostGroups, g.configuration.Grounded ∧ c.kinds.ReadsPlainly g := by
  obtain ⟨hconfiguration, hknows⟩ := decodeValue_eq_ok hkinds hvalue
  obtain ⟨-, rfl⟩ := Blueprint.normalize_eq_ok_iff.mp hnormal
  refine ⟨hconfiguration, ?_⟩
  intro g hg
  obtain ⟨g', hg', rfl⟩ := List.mem_map.mp hg
  have hfilled : c.kinds.Knows (Blueprint.fillHostGroup g') := hknows g' hg'
  exact ⟨hfilled.1, hfilled.readsPlainly hkinds (Option.some_ne_none _)⟩

section

variable {c : Codec} {members : List (String × Value)} (hkeys : (members.map Prod.fst).Nodup)
  {v : Value} {b : Blueprint} (h : c.decodeValue (.object members) = .ok b)

include hkeys h

theorem stackIds_of_decodeValue (hv : Value.member? members "stack_ids" = some v) :
    ∃ ids, (Decoder.list StackId.decoder).ofValue v = .ok ids ∧
      b.stackIds = Blueprint.stackMap ids := by
  obtain ⟨-, hostGroups, others, -, -, hothers, rfl⟩ := parts_of_decodeValue h
  obtain ⟨⟨_, stackIds, _⟩, hgives, rfl⟩ := Decoder.gives_of_ofValue_record (by decide) hothers
  obtain ⟨-, hstackIds, -⟩ := hgives
  rw [Blueprint.member?_eraseEntry hkeys, if_neg (by decide), hv] at hstackIds
  obtain ⟨ids, hids, rfl⟩ := map_eq_ok hstackIds
  exact ⟨ids, hids, rfl⟩

theorem security_of_decodeValue (hv : Value.member? members "security" = some v) :
    Security.decoder.ofValue v = .ok b.security := by
  obtain ⟨-, hostGroups, others, -, -, hothers, rfl⟩ := parts_of_decodeValue h
  obtain ⟨⟨_, _, _, _, _, security, _⟩, hgives, rfl⟩ :=
    Decoder.gives_of_ofValue_record (by decide) hothers
  obtain ⟨-, -, -, -, -, hsecurity, -⟩ := hgives
  rw [Blueprint.member?_eraseEntry hkeys, if_neg (by decide), hv] at hsecurity
  exact hsecurity

end

end Codec

end ClusterBlueprint
