import ClusterBlueprint.Proofs.Blueprint.Canonical
import ClusterBlueprint.Proofs.Codec.Decoded
import ClusterBlueprint.Proofs.Json.Sorted
import Mathlib.Logic.Function.Iterate

namespace ClusterBlueprint

open Json (Value Decoder Tidy)
open Result (bind_eq_ok map_eq_ok mapError_eq_ok)

namespace Json.Decoder

variable {α : Type}

theorem allValues_of_ofMembers {d : Decoder α} {p : α → Prop} {members : List (String × Value)}
    (hmembers : ∀ m ∈ members, ∀ a, d.ofValue m.2 = .ok a → p a) {m n : OrderedMap String α}
    (hm : m.AllValues p) (h : d.ofMembers (fun key a m => m.insert key a) members m = .ok n) :
    n.AllValues p := by
  induction members generalizing m with
  | nil =>
      cases h
      exact hm
  | cons member members ih =>
      rw [List.forall_mem_cons] at hmembers
      obtain ⟨a, ha, h⟩ := bind_eq_ok h
      exact ih hmembers.2 (hm.alter member.1 fun _ _ => hmembers.1 a ha) h

theorem tidy_of_orderedMap_value {depth : Nat} {v : Value} (hv : Tidy (depth + 1) v)
    {m : OrderedMap String Value} (h : (orderedMap value).ofValue v = .ok m) :
    m.AllValues (Tidy depth) := by
  cases v with
  | object members =>
      refine allValues_of_ofMembers ?_ (OrderedMap.allValues_empty _) h
      rintro member hmember w ⟨⟩
      exact (tidy_object_iff.mp hv).2 member hmember
  | _ => nomatch h

theorem tidy_of_list_orderedMap_value {depth : Nat} {v : Value} (hv : Tidy (depth + 2) v)
    {maps : List (OrderedMap String Value)} (h : (list (orderedMap value)).ofValue v = .ok maps) :
    ∀ m ∈ maps, m.AllValues (Tidy depth) := by
  cases v with
  | array items =>
      intro m hm
      have hread : List.Forall₂ (fun v m => (orderedMap value).ofValue v = .ok m) items maps :=
        ofItems_eq_ok_iff.mp h
      obtain ⟨w, hw, hwm⟩ := exists_of_mem_of_forall₂ hread.flip hm
      exact tidy_of_orderedMap_value (tidy_array_iff.mp hv w hw) hwm
  | _ => nomatch h

end Json.Decoder

namespace Codec

/-- The values in the settings of a decoded blueprint stand in its document, in which they are not
too deep. -/
theorem tidy_settings_of_decodeValue {c : Codec} {v : Value} (hv : Tidy Json.greatestDepth v)
    {b : Blueprint} (h : c.decodeValue v = .ok b) :
    ∀ entry ∈ b.settings, entry.AllValues (Tidy 124) := by
  cases v with
  | object members =>
      obtain ⟨-, hostGroups, others, -, -, hothers, rfl⟩ := parts_of_decodeValue h
      obtain ⟨⟨_, _, _, _, settings, _⟩, hgives, rfl⟩ :=
        Decoder.gives_of_ofValue_record (by decide) hothers
      obtain ⟨-, -, -, -, hsettings, -⟩ := hgives
      cases hfound : Value.member? (SortedMap.eraseEntry hostGroupsField members) "settings" with
      | none =>
          rw [hfound] at hsettings
          cases hsettings
          exact List.forall_mem_nil _
      | some w =>
          rw [hfound] at hsettings
          have hmember : ("settings", w) ∈ members :=
            (SortedMap.eraseEntry_sublist _ _).mem (SortedMap.mem_of_lookupEntry hfound)
          exact Decoder.tidy_of_list_orderedMap_value ((Json.tidy_object_iff.mp hv).2 _ hmember)
            hsettings
  | _ => cases h

theorem hasReadableSettings_of_decode {c : Codec} {text : Bytes} {b : Blueprint}
    (h : c.decode text = .ok b)
    (hwhole : ∀ entry ∈ b.settings, ∀ m ∈ entry.entries, m.2.isWhole = true) :
    b.HasReadableSettings := by
  obtain ⟨v, b₀, hparse, hvalue, hnormal⟩ := decode_eq_ok h
  obtain ⟨-, rfl⟩ := Blueprint.normalize_eq_ok_iff.mp hnormal
  intro entry hentry m hm
  have htidy := tidy_settings_of_decodeValue (Json.tidy_of_parse hparse) hvalue entry hentry m.1 m.2
    (OrderedMap.get?_eq_some_iff.mpr hm)
  exact ⟨htidy.1, hwhole entry hentry m hm, htidy.2⟩

def resave (c : Codec) (text : Bytes) : Except CodecError Bytes :=
  (c.decode text).map fun b => Utf8.encode (c.encode b)

theorem decode_encode_congr (c : Codec) {b b' : Blueprint}
    (hvalue : b'.toValue.sorted = b.toValue.sorted) (hsettings : b.HasReadableSettings)
    (hsettings' : b'.HasReadableSettings) :
    c.decode (Utf8.encode (c.encode b')) = c.decode (Utf8.encode (c.encode b)) := by
  obtain ⟨hwhole, hdepth⟩ := Blueprint.readable_toValue hsettings
  obtain ⟨hwhole', hdepth'⟩ := Blueprint.readable_toValue hsettings'
  rw [encode, encode, decode_of_parse (Json.parse_toText hwhole' hdepth' c.layout), hvalue,
    decode_of_parse (Json.parse_toText hwhole hdepth c.layout)]

/-- After one reload, a decoded blueprint and its document stay as they are. The blueprint comes back
with all its maps in the same order, and loading and saving gives the same bytes any number of times.
-/
theorem decode_encode_fixed (c : Codec) (hkinds : c.kinds.AreOrdinary) {text : Bytes}
    {b₀ : Blueprint} (h : c.decode text = .ok b₀)
    (hwhole : ∀ entry ∈ b₀.settings, ∀ m ∈ entry.entries, m.2.isWhole = true) :
    ∃ b₁, c.decode (Utf8.encode (c.encode b₀)) = .ok b₁ ∧
      c.decode (Utf8.encode (c.encode b₁)) = .ok b₁ ∧
      ∀ n, (· >>= c.resave)^[n] (.ok (Utf8.encode (c.encode b₁))) =
        .ok (Utf8.encode (c.encode b₁)) := by
  obtain ⟨v, b, hparse, hvalue, hnormal⟩ := decode_eq_ok h
  obtain ⟨hconfiguration, hhostGroups⟩ := grounded_of_decodeValue hkinds hvalue hnormal
  have hsettings := hasReadableSettings_of_decode h hwhole
  have hnormal₀ := Blueprint.normalize_of_normalize hnormal
  obtain ⟨hcheck, hfill⟩ := Blueprint.normalize_eq_ok_iff.mp hnormal₀
  obtain ⟨b₁, hraw, hback⟩ := decodeRaw_encode c c hconfiguration hhostGroups hsettings
  have hnormal₁ : b₁.normalize = .ok b₁ :=
    Blueprint.normalize_eq_ok_iff.mpr ⟨hback.check.trans hcheck, (hback.fill_eq hfill.symm).symm⟩
  have hdecode : c.decode (Utf8.encode (c.encode b₀)) = .ok b₁ := by
    rw [decode_of_decodeRaw hraw, hnormal₁]
    rfl
  have hstackIds : Blueprint.stackMap b₀.stackIds.values = b₀.stackIds :=
    congrArg Blueprint.stackIds hfill.symm
  have hfixed : c.decode (Utf8.encode (c.encode b₁)) = .ok b₁ := by
    rw [decode_encode_congr c (hback.toValue_sorted hstackIds) hsettings
      (hback.hasReadableSettings hsettings), hdecode]
  refine ⟨b₁, hdecode, hfixed, ?_⟩
  apply Function.iterate_fixed
  dsimp only [bind, Except.bind]
  rw [resave, hfixed]
  rfl

def edgeCodec : Codec :=
  ⟨.indented, HostGroupKinds.standard.register "edge" (.withCardinality "2")⟩

/-- A document that names a group twice and leaves the order of its keys to chance. -/
def repeatedGroups : Value :=
  .object [("stack_ids", .array [.text "HDP-3.0"]), ("blueprint_name", .text "demo"),
    ("configurations", .array
      [.object [("zoo", .object [("properties", .object [("b", .number (.whole 1 (by decide)))])]),
        ("core", .object [])],
      .object [("zoo", .object [("properties", .object [("a", .bool true)])])]]),
    ("host_groups", .array [.object [("name", .text "edge"), ("kind", .text "edge")]]),
    ("settings", .array [.object [("limit", .number (.whole 7 (by decide)))]])]

theorem decode_encode_fixed_sample :
    ∃ b₀ b₁, edgeCodec.decode (Utf8.encode (repeatedGroups.toText .compact)) = .ok b₀ ∧
      edgeCodec.decode (Utf8.encode (edgeCodec.encode b₀)) = .ok b₁ ∧
      edgeCodec.decode (Utf8.encode (edgeCodec.encode b₁)) = .ok b₁ := by
  have hparse := Json.parse_toText (v := repeatedGroups) (by decide) (by decide) .compact
  obtain ⟨b₀, h, hsettings⟩ : ∃ b₀,
      edgeCodec.decodeValue repeatedGroups.sorted >>= normalize = .ok b₀ ∧
        b₀.settings = [.ofList [("limit", .number (.whole 7 (by decide)))]] :=
    ⟨_, rfl, rfl⟩
  have hkinds : edgeCodec.kinds.AreOrdinary :=
    HostGroupKinds.areOrdinary_register HostGroupKinds.areOrdinary_standard
      (HostGroupShape.isOrdinary_withCardinality "2") _
  have hwhole : ∀ entry ∈ b₀.settings, ∀ m ∈ entry.entries, m.2.isWhole = true := by
    rw [hsettings]
    exact List.forall_mem_singleton.mpr (by decide)
  rw [← decode_of_parse hparse] at h
  obtain ⟨b₁, hfirst, hagain, -⟩ := decode_encode_fixed edgeCodec hkinds h hwhole
  exact ⟨b₀, b₁, h, hfirst, hagain⟩

end Codec

end ClusterBlueprint
