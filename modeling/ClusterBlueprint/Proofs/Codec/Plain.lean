import ClusterBlueprint.Proofs.Codec.Decoded

namespace ClusterBlueprint

open Json (Value Decoder)
open Result (bind_eq_ok map_eq_ok mapError_eq_ok)

theorem HostGroup.ofMember_iff_ofItems {members : List (String × Value)} {values : List Value}
    (hvalues : Codec.hostGroupValues members = .ok values)
    (hnull : Value.member? members Codec.hostGroupsField ≠ some .null) (gs : List HostGroup) :
    (match Value.member? members "host_groups" with
      | some v => HostGroup.decoder.list.ofValue v = .ok gs
      | none => some [] = some gs) ↔ HostGroup.decoder.ofItems values = .ok gs := by
  rw [Codec.hostGroupValues] at hvalues
  rw [Codec.hostGroupsField] at hvalues hnull
  split at hvalues
  · next hfound =>
      cases hvalues
      rw [hfound]
      simp [Decoder.ofItems]
  · next hfound => exact absurd hfound hnull
  · next hfound =>
      cases hvalues
      rw [hfound]
      exact Iff.rfl
  · cases hvalues

/-- The host groups of a blueprint are decoded from the values under their key, and everything else
as if there were none. -/
theorem Blueprint.ofValue_iff_ofValue_eraseEntry {members : List (String × Value)}
    (hkeys : (members.map Prod.fst).Nodup) {values : List Value}
    (hvalues : Codec.hostGroupValues members = .ok values)
    (hnull : Value.member? members Codec.hostGroupsField ≠ some .null) {b : Blueprint} :
    decoder.ofValue (.object members) = .ok b ↔
      HostGroup.decoder.ofItems values = .ok b.hostGroups ∧
        decoder.ofValue (.object (SortedMap.eraseEntry Codec.hostGroupsField members)) =
          .ok { b with hostGroups := [] } := by
  have hkeys' : ((SortedMap.eraseEntry Codec.hostGroupsField members).map Prod.fst).Nodup :=
    hkeys.sublist ((SortedMap.eraseEntry_sublist _ _).map Prod.fst)
  have hother (key : String) (hkey : key ≠ "host_groups") :
      Value.member? (SortedMap.eraseEntry Codec.hostGroupsField members) key =
        Value.member? members key :=
    (member?_eraseEntry hkeys _ key).trans (if_neg hkey)
  have herased : Value.member? (SortedMap.eraseEntry Codec.hostGroupsField members) "host_groups" =
      none := (member?_eraseEntry hkeys _ _).trans (if_pos rfl)
  have hgroups := HostGroup.ofMember_iff_ofItems hvalues hnull
  rw [decoder, Decoder.ofValue_record_eq_ok_iff (by decide) hkeys,
    Decoder.ofValue_record_eq_ok_iff (by decide) hkeys']
  constructor
  · rintro ⟨⟨name, stackIds, hostGroups, configuration, settings, security, _⟩, hgives, rfl⟩
    obtain ⟨hname, hstackIds, hhostGroups, hconfiguration, hsettings, hsecurity, -⟩ := hgives
    refine ⟨(hgroups hostGroups).mp hhostGroups,
      (name, stackIds, [], configuration, settings, security, ()), ⟨?_, ?_, ?_, ?_, ?_, ?_, trivial⟩,
      rfl⟩
    · rwa [hother _ (by decide)]
    · rwa [hother _ (by decide)]
    · rw [herased]
    · rwa [hother _ (by decide)]
    · rwa [hother _ (by decide)]
    · rwa [hother _ (by decide)]
  · rintro ⟨hhostGroups, ⟨name, stackIds, none', configuration, settings, security, _⟩, hgives, hb⟩
    obtain ⟨hname, hstackIds, -, hconfiguration, hsettings, hsecurity, -⟩ := hgives
    rw [hother _ (by decide)] at hname hstackIds hconfiguration hsettings hsecurity
    refine ⟨(name, stackIds, b.hostGroups, configuration, settings, security, ()),
      ⟨hname, hstackIds, (hgroups _).mpr hhostGroups, hconfiguration, hsettings, hsecurity, trivial⟩,
      ?_⟩
    obtain ⟨name', stackIds', hostGroups', configuration', settings', security'⟩ := b
    cases hb
    rfl

namespace HostGroupKinds

variable {kinds : HostGroupKinds}

theorem resolveAll_eq_ok_iff {values : List Value} {gs : List HostGroup} :
    kinds.resolveAll values = .ok gs ↔
      List.Forall₂ (fun v g => kinds.resolve v = .ok g) values gs := by
  induction values generalizing gs with
  | nil => cases gs <;> simp [resolveAll]
  | cons v values ih =>
      cases hv : kinds.resolve v with
      | error e => cases gs <;> simp [resolveAll, hv, bind, Except.bind]
      | ok g =>
          cases hvalues : kinds.resolveAll values with
          | error e => cases gs <;> simp [resolveAll, hv, hvalues, bind, Except.bind, ← ih]
          | ok rest => cases gs <;> simp [resolveAll, hv, hvalues, bind, Except.bind, ← ih]

theorem resolveAll_eq_error_iff {values : List Value} {e : CodecError} :
    kinds.resolveAll values = .error e ↔
      ∃ before gs v after, values = before ++ v :: after ∧
        List.Forall₂ (fun v g => kinds.resolve v = .ok g) before gs ∧
        kinds.resolve v = .error e := by
  constructor
  · intro h
    induction values with
    | nil => cases h
    | cons v values ih =>
        rw [resolveAll] at h
        cases hv : kinds.resolve v with
        | error e' =>
            rw [hv] at h
            cases h
            exact ⟨[], [], v, values, rfl, .nil, hv⟩
        | ok g =>
            rw [hv] at h
            cases hvalues : kinds.resolveAll values with
            | error e' =>
                rw [hvalues] at h
                cases h
                obtain ⟨before, gs, w, after, rfl, hbefore, hw⟩ := ih hvalues
                exact ⟨v :: before, g :: gs, w, after, rfl, .cons hv hbefore, hw⟩
            | ok gs =>
                rw [hvalues] at h
                cases h
  · rintro ⟨before, gs, v, after, rfl, hbefore, hv⟩
    induction hbefore with
    | nil =>
        rw [List.nil_append, resolveAll, hv]
        rfl
    | cons hg _ ih =>
        rw [List.cons_append, resolveAll, hg]
        simp only [bind, Except.bind, ih]

theorem exists_of_resolveAll_eq_error {values : List Value} {e : CodecError}
    (h : kinds.resolveAll values = .error e) : ∃ v ∈ values, kinds.resolve v = .error e := by
  obtain ⟨before, gs, v, after, rfl, -, hv⟩ := resolveAll_eq_error_iff.mp h
  exact ⟨v, by simp, hv⟩

/-- Whether a value is an object of a kind that is known and decoded like that of ordinary host
groups. An object that gives no kind is of the standard one. -/
def DecodesPlainly (kinds : HostGroupKinds) (v : Value) : Prop :=
  ∃ members kind, v = .object members ∧
    (Value.member? members "kind" = some (.text kind) ∨
      (Value.member? members "kind" = none ∨ Value.member? members "kind" = some .null) ∧
        kind = HostGroup.standardKind) ∧
    SortedMap.get? kinds kind = some .plain

theorem DecodesPlainly.resolve_eq {v : Value} (h : kinds.DecodesPlainly v) :
    ∃ name, kinds.resolve v =
      (HostGroupShape.plain v).mapError fun e => .parse (.malformedHostGroup name e) := by
  obtain ⟨members, kind, rfl, hkind, hshape⟩ := h
  exact ⟨nameFor members, IsOfKind.resolve_of_known hkind hshape⟩

theorem DecodesPlainly.resolve_eq_ok_iff {v : Value} (h : kinds.DecodesPlainly v) {g : HostGroup} :
    kinds.resolve v = .ok g ↔ HostGroup.decoder.ofValue v = .ok g := by
  obtain ⟨name, hresolve⟩ := h.resolve_eq
  rw [hresolve, HostGroupShape.plain, ← Decoder.convert_eq_ok_iff]
  cases HostGroup.decoder.convert v <;> simp [Except.mapError]

theorem DecodesPlainly.parse_of_resolve_eq_error {v : Value} (h : kinds.DecodesPlainly v)
    {e : CodecError} (he : kinds.resolve v = .error e) : ∃ fault, e = .parse fault := by
  obtain ⟨name, hresolve⟩ := h.resolve_eq
  rw [hresolve] at he
  cases hv : HostGroupShape.plain v with
  | ok g =>
      rw [hv] at he
      nomatch he
  | error fault =>
      rw [hv] at he
      cases he
      exact ⟨_, rfl⟩

theorem resolveAll_eq_ok_iff_ofItems {values : List Value}
    (h : ∀ v ∈ values, kinds.DecodesPlainly v) {gs : List HostGroup} :
    kinds.resolveAll values = .ok gs ↔ HostGroup.decoder.ofItems values = .ok gs := by
  rw [resolveAll_eq_ok_iff, Decoder.ofItems_eq_ok_iff]
  constructor
  · intro hresolve
    apply ((List.forall₂_and_left _ _).mpr ⟨h, hresolve⟩).imp
    rintro v g ⟨hplain, hv⟩
    exact hplain.resolve_eq_ok_iff.mp hv
  · intro hread
    apply ((List.forall₂_and_left _ _).mpr ⟨h, hread⟩).imp
    rintro v g ⟨hplain, hv⟩
    exact hplain.resolve_eq_ok_iff.mpr hv

end HostGroupKinds

namespace Codec

theorem decodeValue_eq_ok_iff (c : Codec) {members : List (String × Value)}
    (hkeys : (members.map Prod.fst).Nodup) {values : List Value}
    (hvalues : hostGroupValues members = .ok values) {b : Blueprint} :
    c.decodeValue (.object members) = .ok b ↔
      c.kinds.resolveAll values = .ok b.hostGroups ∧
        Blueprint.decoder.ofValue (.object (SortedMap.eraseEntry hostGroupsField members)) =
          .ok { b with hostGroups := [] } := by
  constructor
  · intro h
    obtain ⟨values', hostGroups, others, hvalues', hhostGroups, hothers, rfl⟩ :=
      parts_of_decodeValue h
    obtain rfl : values = values' := Except.ok.inj (hvalues.symm.trans hvalues')
    refine ⟨hhostGroups, hothers.trans ?_⟩
    obtain ⟨⟨name, stackIds, noGroups, configuration, settings, security, _⟩, hgives, rfl⟩ :=
      Decoder.gives_of_ofValue_record (by decide) hothers
    obtain ⟨-, -, hgroups, -⟩ := hgives
    rw [show Value.member? (SortedMap.eraseEntry hostGroupsField members) "host_groups" = none from
      (Blueprint.member?_eraseEntry hkeys _ _).trans (if_pos rfl)] at hgroups
    cases hgroups
    rfl
  · rintro ⟨hhostGroups, hothers⟩
    rw [decodeValue, hvalues]
    simp only [bind, Except.bind, Decoder.convert, hothers, hhostGroups, Except.mapError]

/-- Whether a document has no host groups, or an array of objects that are all of plainly decoded
kinds. -/
def HasPlainHostGroups (c : Codec) (members : List (String × Value)) : Prop :=
  Value.member? members hostGroupsField = none ∨
    ∃ values, Value.member? members hostGroupsField = some (.array values) ∧
      ∀ v ∈ values, c.kinds.DecodesPlainly v

theorem HasPlainHostGroups.hostGroupValues_eq_ok {c : Codec} {members : List (String × Value)}
    (h : c.HasPlainHostGroups members) :
    ∃ values, hostGroupValues members = .ok values ∧
      Value.member? members hostGroupsField ≠ some .null ∧
      ∀ v ∈ values, c.kinds.DecodesPlainly v := by
  rcases h with hfound | ⟨values, hfound, hplain⟩
  · refine ⟨[], ?_, ?_, List.forall_mem_nil _⟩
    · rw [hostGroupValues, hfound]
    · rw [hfound]
      rintro ⟨⟩
  · refine ⟨values, ?_, ?_, hplain⟩
    · rw [hostGroupValues, hfound]
    · rw [hfound]
      rintro ⟨⟩

/-- Where all kinds are decoded plainly, a document is accepted if and only if the decoder of
blueprints accepts it as a whole, the blueprint is the same, and a refused document has failed to
parse. A text is decoded as the value that stands in it. -/
theorem decodeValue_eq_plain (c : Codec) {members : List (String × Value)}
    (hkeys : (members.map Prod.fst).Nodup) (hplain : c.HasPlainHostGroups members) :
    (∀ b, c.decodeValue (.object members) = .ok b ↔
        Blueprint.decoder.convert (.object members) = .ok b) ∧
      (∀ e, c.decodeValue (.object members) = .error e → ∃ fault, e = .parse fault) ∧
      ∀ text, Json.parse text = .ok (.object members) →
        c.decodeRaw text = c.decodeValue (.object members) := by
  obtain ⟨values, hvalues, hnull, hgroups⟩ := hplain.hostGroupValues_eq_ok
  refine ⟨?_, ?_, ?_⟩
  · intro b
    rw [c.decodeValue_eq_ok_iff hkeys hvalues, Decoder.convert_eq_ok_iff,
      Blueprint.ofValue_iff_ofValue_eraseEntry hkeys hvalues hnull,
      HostGroupKinds.resolveAll_eq_ok_iff_ofItems hgroups]
  · intro e he
    rw [decodeValue, hvalues] at he
    cases hothers : Blueprint.decoder.convert
        (.object (SortedMap.eraseEntry hostGroupsField members)) with
    | error fault =>
        simp only [bind, Except.bind, hothers, Except.mapError] at he
        cases he
        exact ⟨_, rfl⟩
    | ok others =>
        cases hresolve : c.kinds.resolveAll values with
        | ok hostGroups =>
            simp only [bind, Except.bind, hothers, Except.mapError, hresolve] at he
            cases he
        | error e' =>
            simp only [bind, Except.bind, hothers, Except.mapError, hresolve] at he
            cases he
            obtain ⟨v, hv, hfails⟩ := HostGroupKinds.exists_of_resolveAll_eq_error hresolve
            exact (hgroups v hv).parse_of_resolve_eq_error hfails
  · intro text htext
    rw [decodeRaw, htext]
    rfl

def mixedMembers : List (String × Value) :=
  [("blueprint_name", .text "demo"),
    ("host_groups", .array
      [.object [("name", .text "master")],
        .object [("kind", .text "edge"), ("name", .text "gateway")]])]

theorem decodeValue_eq_plain_sample :
    ∃ b, Codec.decodeValue ⟨.compact, HostGroupKinds.standard.register "edge" .plain⟩
        (.object mixedMembers) = .ok b ∧
      Blueprint.decoder.convert (.object mixedMembers) = .ok b ∧
      b.hostGroups.map HostGroup.effectiveKind = ["standard", "edge"] := by
  refine ⟨{ Blueprint.ofName "demo" with hostGroups :=
    [.ofName "master", { HostGroup.ofName "gateway" with kind := some "edge" }] }, ?_, rfl, rfl⟩
  refine ((decodeValue_eq_plain _ (by decide) (.inr ⟨_, rfl, ?_⟩)).1 _).mpr rfl
  refine List.forall_mem_cons.mpr ⟨⟨_, _, rfl, .inr ⟨.inl rfl, rfl⟩, rfl⟩, ?_⟩
  exact List.forall_mem_singleton.mpr ⟨_, _, rfl, .inl rfl, rfl⟩

end Codec

end ClusterBlueprint
