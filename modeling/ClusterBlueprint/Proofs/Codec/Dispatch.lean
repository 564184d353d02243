import ClusterBlueprint.Proofs.Codec.Plain
import ClusterBlueprint.Proofs.Json.Sorted
import Mathlib.Data.List.Induction

/-!
How host groups are told apart by their kinds. After any series of registrations a host group is
decoded by what was registered last for its own kind, and a document fails at the first of its
faults: its outermost shape, its list of host groups, its other fields, and then its host groups in
their order (`decodeRaw_eq_iff`).
-/

namespace ClusterBlueprint

open Json (Value)

namespace HostGroupKinds

def ofRegistrations (registrations : List (String × HostGroupShape)) : HostGroupKinds :=
  registrations.foldl (fun kinds (kind, shape) => kinds.register kind shape) ∅

def lastRegistered (registrations : List (String × HostGroupShape)) (kind : String) :
    Option HostGroupShape :=
  (registrations.reverse.find? fun registration => registration.1 == kind).map Prod.snd

theorem get?_ofRegistrations (registrations : List (String × HostGroupShape)) (kind : String) :
    (ofRegistrations registrations).get? kind = lastRegistered registrations kind := by
  induction registrations using List.reverseRecOn with
  | nil => rfl
  | append_singleton registrations last ih =>
      obtain ⟨kind', shape⟩ := last
      rw [lastRegistered, List.reverse_concat, List.find?_cons, ofRegistrations, List.foldl_concat]
      change (register (ofRegistrations registrations) kind' shape).get? kind = _
      rw [register, SortedMap.get?_insert, ih, lastRegistered]
      by_cases hkind : kind = kind'
      · rw [if_pos hkind, hkind, BEq.rfl]
        rfl
      · rw [if_neg hkind, beq_false_of_ne (Ne.symm hkind)]

example : standard = ofRegistrations [(HostGroup.standardKind, .plain)] := rfl

variable (registrations : List (String × HostGroupShape))

/-- What comes of a value in a list of host groups. -/
inductive Resolves : Value → Except CodecError HostGroup → Prop
  | notAnObject {v : Value} (h : ∀ members, v ≠ .object members) :
      Resolves v (.error (.parse (.hostGroupNotAnObject v)))
  | kindNotText {members : List (String × Value)} {found : Value}
      (hfound : Value.member? members "kind" = some found) (hnull : found ≠ .null)
      (htext : ∀ kind, found ≠ .text kind) :
      Resolves (.object members) (.error (.parse (.kindNotText (nameFor members) found)))
  | unregistered {members : List (String × Value)} {kind : String}
      (hkind : IsOfKind members kind) (hshape : lastRegistered registrations kind = none) :
      Resolves (.object members) (.error (.unsupportedKind (nameFor members) kind))
  | malformed {members : List (String × Value)} {kind : String} {shape : HostGroupShape}
      {e : Json.Error} (hkind : IsOfKind members kind)
      (hshape : lastRegistered registrations kind = some shape)
      (hfails : shape (.object members) = .error e) :
      Resolves (.object members) (.error (.parse (.malformedHostGroup (nameFor members) e)))
  | decoded {members : List (String × Value)} {kind : String} {shape : HostGroupShape}
      {g : HostGroup} (hkind : IsOfKind members kind)
      (hshape : lastRegistered registrations kind = some shape)
      (hgives : shape (.object members) = .ok g) :
      Resolves (.object members) (.ok g)

variable {registrations}

theorem Resolves.resolve_eq {v : Value} {outcome : Except CodecError HostGroup}
    (h : Resolves registrations v outcome) :
    (ofRegistrations registrations).resolve v = outcome := by
  cases h with
  | notAnObject h =>
      cases v with
      | object members => exact absurd rfl (h members)
      | _ => rfl
  | kindNotText hfound hnull htext => exact resolve_of_kindNotText hfound hnull htext
  | unregistered hkind hshape =>
      exact hkind.resolve_of_unknown ((get?_ofRegistrations _ _).trans hshape)
  | malformed hkind hshape hfails =>
      rw [hkind.resolve_of_known ((get?_ofRegistrations _ _).trans hshape), hfails]
      rfl
  | decoded hkind hshape hgives =>
      rw [hkind.resolve_of_known ((get?_ofRegistrations _ _).trans hshape), hgives]
      rfl

theorem exists_resolves (registrations : List (String × HostGroupShape)) (v : Value) :
    ∃ outcome, Resolves registrations v outcome := by
  cases v with
  | object members =>
      rcases exists_isOfKind_or members with ⟨kind, hkind⟩ | ⟨found, hfound, hnull, htext⟩
      · cases hshape : lastRegistered registrations kind with
        | none => exact ⟨_, .unregistered hkind hshape⟩
        | some shape =>
            cases hread : shape (.object members) with
            | error e => exact ⟨_, .malformed hkind hshape hread⟩
            | ok g => exact ⟨_, .decoded hkind hshape hread⟩
      · exact ⟨_, .kindNotText hfound hnull htext⟩
  | _ => exact ⟨_, .notAnObject (by rintro _ ⟨⟩)⟩

theorem resolve_eq_iff {v : Value} {outcome : Except CodecError HostGroup} :
    (ofRegistrations registrations).resolve v = outcome ↔ Resolves registrations v outcome := by
  constructor
  · rintro rfl
    obtain ⟨outcome, h⟩ := exists_resolves registrations v
    exact h.resolve_eq ▸ h
  · exact Resolves.resolve_eq

/-- An unknown kind is told before anything else that is wrong with an object is looked at. -/
theorem Resolves.eq_unsupportedKind_iff {v : Value} {e : CodecError}
    (h : Resolves registrations v (.error e)) (name kind : String) :
    e = .unsupportedKind name kind ↔
      ∃ members, v = .object members ∧ IsOfKind members kind ∧
        lastRegistered registrations kind = none ∧ name = nameFor members := by
  constructor
  · rintro rfl
    cases h with
    | unregistered hkind hshape => exact ⟨_, rfl, hkind, hshape, rfl⟩
  · rintro ⟨members, rfl, hkind, hshape, rfl⟩
    have hfails := (Resolves.unregistered hkind hshape).resolve_eq
    rw [h.resolve_eq] at hfails
    exact Except.error.inj hfails

end HostGroupKinds

namespace Codec

open HostGroupKinds (Resolves ofRegistrations lastRegistered IsOfKind)

/-- The values of a document that describe host groups, where its list of them is well-formed. -/
def ListsHostGroups (members : List (String × Value)) (values : List Value) : Prop :=
  Value.member? members hostGroupsField = some (.array values) ∨
    (Value.member? members hostGroupsField = none ∨
      Value.member? members hostGroupsField = some .null) ∧ values = []

def otherFields (members : List (String × Value)) : Value :=
  .object (members.filter fun (key, _) => key != hostGroupsField)

/-- What comes of a document after a series of registrations of kinds. -/
inductive DecodesTo (registrations : List (String × HostGroupShape)) :
    Value → Except CodecError Blueprint → Prop
  | notAnObject {d : Value} (h : ∀ members, d ≠ .object members) :
      DecodesTo registrations d (.error (.parse .notAnObject))
  | hostGroupsNotAnArray {members : List (String × Value)} {found : Value}
      (hfound : Value.member? members hostGroupsField = some found) (hnull : found ≠ .null)
      (harray : ∀ values, found ≠ .array values) :
      DecodesTo registrations (.object members) (.error (.parse (.hostGroupsNotAnArray found)))
  | malformed {members : List (String × Value)} {values : List Value} {e : Json.Error}
      (hvalues : ListsHostGroups members values)
      (hothers : Blueprint.decoder.convert (otherFields members) = .error e) :
      DecodesTo registrations (.object members) (.error (.parse (.malformed e)))
  | hostGroup {members : List (String × Value)} {before : List Value} {v : Value}
      {after : List Value} {b : Blueprint} {gs : List HostGroup} {e : CodecError}
      (hvalues : ListsHostGroups members (before ++ v :: after))
      (hothers : Blueprint.decoder.convert (otherFields members) = .ok b)
      (hbefore : List.Forall₂ (fun v g => Resolves registrations v (.ok g)) before gs)
      (hfails : Resolves registrations v (.error e)) :
      DecodesTo registrations (.object members) (.error e)
  | decoded {members : List (String × Value)} {values : List Value} {b : Blueprint}
      {gs : List HostGroup} (hvalues : ListsHostGroups members values)
      (hothers : Blueprint.decoder.convert (otherFields members) = .ok b)
      (hgroups : List.Forall₂ (fun v g => Resolves registrations v (.ok g)) values gs) :
      DecodesTo registrations (.object members) (.ok { b with hostGroups := gs })

theorem hostGroupValues_eq_ok_iff {members : List (String × Value)} {values : List Value} :
    hostGroupValues members = .ok values ↔ ListsHostGroups members values := by
  rw [ListsHostGroups, hostGroupValues]
  rcases Value.member? members hostGroupsField with _ | found
  · simp [eq_comm]
  · cases found <;> simp [eq_comm]

theorem decodeValue_of_listsHostGroups (c : Codec) {members : List (String × Value)}
    (hkeys : (members.map Prod.fst).Nodup) {values : List Value}
    (hvalues : ListsHostGroups members values) :
    c.decodeValue (.object members) =
      match Blueprint.decoder.convert (otherFields members) with
      | .error e => .error (.parse (.malformed e))
      | .ok b => (c.kinds.resolveAll values).map fun hostGroups => { b with hostGroups } := by
  have herased : Value.object (SortedMap.eraseEntry hostGroupsField members) =
      otherFields members := by
    rw [SortedMap.eraseEntry_eq_filter _ hkeys, otherFields]
  simp only [decodeValue, hostGroupValues_eq_ok_iff.mpr hvalues, herased, bind, Except.bind]
  rcases Blueprint.decoder.convert (otherFields members) with e | b
  · rfl
  · cases c.kinds.resolveAll values <;> rfl

variable {registrations : List (String × HostGroupShape)}

theorem DecodesTo.decodeValue_eq (layout : Json.Layout) {d : Value} (hd : d.isSorted = true)
    {outcome : Except CodecError Blueprint} (h : DecodesTo registrations d outcome) :
    decodeValue ⟨layout, ofRegistrations registrations⟩ d = outcome := by
  have hkeys : ∀ members, d = .object members → (members.map Prod.fst).Nodup := by
    rintro members rfl
    exact SortedMap.nodup_of_sorted (Value.isSorted_object.mp hd).1
  cases h with
  | notAnObject h =>
      cases d with
      | object members => exact absurd rfl (h members)
      | _ => rfl
  | @hostGroupsNotAnArray members found hfound hnull harray =>
      cases found with
      | null => exact absurd rfl hnull
      | array values => exact absurd rfl (harray values)
      | _ => simp only [decodeValue, hostGroupValues, hfound, bind, Except.bind]
  | malformed hvalues hothers => rw [decodeValue_of_listsHostGroups _ (hkeys _ rfl) hvalues, hothers]
  | @hostGroup members before v after b gs e hvalues hothers hbefore hfails =>
      have hresolve : (ofRegistrations registrations).resolveAll (before ++ v :: after) = .error e :=
        HostGroupKinds.resolveAll_eq_error_iff.mpr
          ⟨before, gs, v, after, rfl, hbefore.imp fun _ _ hg => hg.resolve_eq, hfails.resolve_eq⟩
      rw [decodeValue_of_listsHostGroups _ (hkeys _ rfl) hvalues, hothers]
      simp only [hresolve, Except.map]
  | @decoded members values b gs hvalues hothers hgroups =>
      have hresolve : (ofRegistrations registrations).resolveAll values = .ok gs :=
        HostGroupKinds.resolveAll_eq_ok_iff.mpr (hgroups.imp fun _ _ hg => hg.resolve_eq)
      rw [decodeValue_of_listsHostGroups _ (hkeys _ rfl) hvalues, hothers]
      simp only [hresolve, Except.map]

theorem exists_decodesTo (registrations : List (String × HostGroupShape)) (d : Value) :
    ∃ outcome, DecodesTo registrations d outcome := by
  cases d with
  | object members =>
      have hlisted : ∀ values, ListsHostGroups members values →
          ∃ outcome, DecodesTo registrations (.object members) outcome := by
        intro values hvalues
        cases hothers : Blueprint.decoder.convert (otherFields members) with
        | error e => exact ⟨_, .malformed hvalues hothers⟩
        | ok b =>
            cases hresolve : (ofRegistrations registrations).resolveAll values with
            | error e =>
                obtain ⟨before, gs, v, after, rfl, hbefore, hfails⟩ :=
                  HostGroupKinds.resolveAll_eq_error_iff.mp hresolve
                exact ⟨_, .hostGroup hvalues hothers
                  (hbefore.imp fun _ _ => HostGroupKinds.resolve_eq_iff.mp)
                  (HostGroupKinds.resolve_eq_iff.mp hfails)⟩
            | ok gs =>
                have hgroups := HostGroupKinds.resolveAll_eq_ok_iff.mp hresolve
                exact ⟨_, .decoded hvalues hothers
                  (hgroups.imp fun _ _ => HostGroupKinds.resolve_eq_iff.mp)⟩
      cases hfound : Value.member? members hostGroupsField with
      | none => exact hlisted [] (.inr ⟨.inl hfound, rfl⟩)
      | some found =>
          cases found with
          | null => exact hlisted [] (.inr ⟨.inr hfound, rfl⟩)
          | array values => exact hlisted values (.inl hfound)
          | _ => exact ⟨_, .hostGroupsNotAnArray hfound (by rintro ⟨⟩) (by rintro _ ⟨⟩)⟩
  | _ => exact ⟨_, .notAnObject (by rintro _ ⟨⟩)⟩

theorem decodeValue_eq_iff {layout : Json.Layout} {d : Value} (hd : d.isSorted = true)
    {outcome : Except CodecError Blueprint} :
    decodeValue ⟨layout, ofRegistrations registrations⟩ d = outcome ↔
      DecodesTo registrations d outcome := by
  constructor
  · rintro rfl
    obtain ⟨outcome, h⟩ := exists_decodesTo registrations d
    exact h.decodeValue_eq layout hd ▸ h
  · exact DecodesTo.decodeValue_eq layout hd

/-- After any series of registrations, what comes of a document is settled by the first of its
faults, and each host group by the last registration of its own kind. A host group that fails has
a kind that is not registered, or else it has failed to parse. -/
theorem decodeRaw_eq_iff (registrations : List (String × HostGroupShape)) (layout : Json.Layout) :
    (∀ text d, Json.parse text = .ok d → ∀ outcome,
        decodeRaw ⟨layout, ofRegistrations registrations⟩ text = outcome ↔
          DecodesTo registrations d outcome) ∧
      (∀ d : Value, d.isSorted = true → ∀ outcome,
        decodeValue ⟨layout, ofRegistrations registrations⟩ d = outcome ↔
          DecodesTo registrations d outcome) ∧
      ∀ v e, Resolves registrations v (.error e) →
        (∀ name kind, e = .unsupportedKind name kind ↔
          ∃ members, v = .object members ∧ IsOfKind members kind ∧
            lastRegistered registrations kind = none ∧ name = HostGroupKinds.nameFor members) ∧
        ((∀ name kind, e ≠ .unsupportedKind name kind) → ∃ fault, e = .parse fault) := by
  refine ⟨?_, fun d hd outcome => decodeValue_eq_iff hd, ?_⟩
  · intro text d htext outcome
    rw [decodeRaw, htext]
    exact decodeValue_eq_iff (Json.isSorted_of_parse htext)
  · intro v e hfails
    refine ⟨hfails.eq_unsupportedKind_iff, fun hknown => ?_⟩
    cases hfails with
    | unregistered => exact absurd rfl (hknown _ _)
    | _ => exact ⟨_, rfl⟩

/-- A host group of a known kind, one of an unknown kind with a fault besides, and something that is
no host group. -/
def faultyMembers : List (String × Value) :=
  [("host_groups", .array
    [.object [("kind", .text "edge"), ("name", .text "gateway")],
      .object [("components", .null), ("kind", .text "gpu"), ("name", .text "worker")], .null])]

theorem decodeRaw_eq_iff_sample :
    decodeRaw ⟨.compact, ofRegistrations [("edge", .refuse "replaced"), ("edge", .plain)]⟩
        (Utf8.encode ((Value.object faultyMembers).toText .compact)) =
      .error (.unsupportedKind "worker" "gpu") := by
  have hparse : Json.parse (Utf8.encode ((Value.object faultyMembers).toText .compact)) =
      .ok (.object faultyMembers) := by
    rw [Json.parse_toText (by decide) (by decide), Value.sorted_of_isSorted (by decide)]
  have hgateway : Resolves [("edge", .refuse "replaced"), ("edge", .plain)]
      (.object [("kind", .text "edge"), ("name", .text "gateway")])
      (.ok { HostGroup.ofName "gateway" with kind := some "edge" }) :=
    .decoded (.inl rfl) rfl rfl
  have hworker : Resolves [("edge", .refuse "replaced"), ("edge", .plain)]
      (.object [("components", .null), ("kind", .text "gpu"), ("name", .text "worker")])
      (.error (.unsupportedKind "worker" "gpu")) :=
    .unregistered (.inl rfl) rfl
  refine ((decodeRaw_eq_iff _ .compact).1 _ _ hparse _).mpr ?_
  exact .hostGroup (b := .ofName "") (.inl rfl) rfl (.cons hgateway .nil) hworker

end Codec

end ClusterBlueprint
