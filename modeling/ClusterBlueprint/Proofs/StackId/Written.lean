import ClusterBlueprint.Proofs.Json.Decoder
import ClusterBlueprint.Proofs.Json.Sorted
import ClusterBlueprint.Proofs.StackId

namespace ClusterBlueprint.StackId

open Json (Value Decoder)

/-- Whether a text is a name and a version with a dash between them. Neither of them is empty or has
a blank character, and the name has no dash. -/
structure IsWritten (value name version : String) : Prop where
  joined : value = name ++ "-" ++ version
  name_nonempty : name ≠ ""
  name_characters : ∀ c ∈ name.toList, Text.isBlank c = false ∧ c ≠ '-'
  version_nonempty : version ≠ ""
  version_characters : ∀ c ∈ version.toList, Text.isBlank c = false

theorem length_toList_ne_zero_iff {s : String} : s.toList.length ≠ 0 ↔ s ≠ "" := by
  rw [ne_eq, List.length_eq_zero_iff, String.toList_eq_nil_iff]

theorem isWritten_iff {value name version : String} :
    IsWritten value name version ↔
      value = join name version ∧ isName name = true ∧ isVersion version = true := by
  rw [isName_iff, isVersion_iff, length_toList_ne_zero_iff, length_toList_ne_zero_iff]
  constructor
  · rintro ⟨hjoined, hname, hname', hversion, hversion'⟩
    exact ⟨hjoined, ⟨hname', hname⟩, hversion', hversion⟩
  · rintro ⟨hjoined, ⟨hname', hname⟩, hversion', hversion⟩
    exact ⟨hjoined, hname, hname', hversion, hversion'⟩

theorem isWritten_display (id : StackId) : IsWritten id.display id.name id.version :=
  isWritten_iff.mpr ⟨rfl, id.isName_name, id.isVersion_version⟩

theorem IsWritten.exists_id {value name version : String} (h : IsWritten value name version) :
    ∃ id : StackId, id.name = name ∧ id.version = version ∧ id.display = value := by
  obtain ⟨hjoined, hname, hversion⟩ := isWritten_iff.mp h
  exact ⟨⟨name, version, hname, hversion⟩, rfl, rfl, hjoined.symm⟩

theorem exists_parse_iff {value : String} :
    (∃ id, parse value = .ok id) ↔ ∃ name version, IsWritten value name version := by
  constructor
  · rintro ⟨id, hid⟩
    obtain rfl := parse_eq_ok_iff.mp hid
    exact ⟨id.name, id.version, isWritten_display id⟩
  · rintro ⟨name, version, h⟩
    obtain ⟨id, -, -, hdisplay⟩ := h.exists_id
    exact ⟨id, parse_eq_ok_iff.mpr hdisplay⟩

theorem eq_of_parse_eq_error {value : String} {e : Invalid} (h : parse value = .error e) :
    e = ⟨value⟩ := by
  rw [parse] at h
  split at h
  · cases h
    rfl
  · split at h
    · cases h
    · cases h
      rfl

theorem eq_of_make_eq_error {name version : String} {e : Invalid}
    (h : make name version = .error e) : e = ⟨join name version⟩ := by
  rw [make] at h
  split at h
  · split at h
    · cases h
    · cases h
      rfl
  · cases h
    rfl

/-- A name and a version are made an id if they are what the two glued together are read as. -/
theorem make_eq_ok_iff_parse {name version : String} {id : StackId} :
    make name version = .ok id ↔
      parse (join name version) = .ok id ∧ id.name = name ∧ id.version = version := by
  constructor
  · intro h
    obtain ⟨rfl, rfl⟩ := make_eq_ok h
    exact ⟨parse_display id, rfl, rfl⟩
  · rintro ⟨-, rfl, rfl⟩
    exact make_eq id

theorem ofValue_eq_ok_iff {v : Value} {id : StackId} :
    decoder.ofValue v = .ok id ↔ v = id.toValue := by
  constructor
  · intro h
    obtain ⟨value, hvalue, hid⟩ := Result.bind_eq_ok h
    have hdisplay := parse_eq_ok_iff.mp (Result.mapError_eq_ok (Result.mapError_eq_ok hid))
    cases v with
    | text s =>
        cases hvalue
        rw [toValue, hdisplay]
    | _ => cases hvalue
  · rintro rfl
    exact decoder_ofValue_toValue id

theorem decode_eq_ok_iff {text : Bytes} {id : StackId} :
    decoder.parse text = .ok id ↔ Json.parse text = .ok id.toValue := by
  rw [decoder, Decoder.parse_refine_eq_ok_iff]
  simp only [Decoder.parse_text_eq_ok_iff]
  constructor
  · rintro ⟨value, htext, hid⟩
    rw [htext, toValue, parse_eq_ok_iff.mp (Result.mapError_eq_ok hid)]
  · intro htext
    refine ⟨id.display, htext, ?_⟩
    rw [parse_display]
    rfl

theorem decode_string_eq_ok_iff {value : String} {layout : Json.Layout} {id : StackId} :
    decoder.parse (Utf8.encode ((Value.text value).toText layout)) = .ok id ↔
      id.toValue = .text value := by
  rw [decode_eq_ok_iff, Json.parse_toText rfl (Nat.zero_le _), Value.sorted_text, Except.ok.injEq,
    eq_comm]

/-- Ids and their written forms correspond. A text is read as an id if it is a name, a dash and a
version, and then they are those of the id and the text is its written form. A name and a version
are made the id that the two glued together are read as, unless it has another name and version.
What is refused is reported as it stands. No two ids are written alike, and in documents an id is
the string of its written form. -/
theorem written_forms_correspond :
    (∀ value, (∃ id, parse value = .ok id) ↔ ∃ name version, IsWritten value name version) ∧
    (∀ value name version, IsWritten value name version →
      ∃ id, parse value = .ok id ∧ id.name = name ∧ id.version = version ∧ id.display = value) ∧
    (∀ name version id, make name version = .ok id ↔
      parse (name ++ "-" ++ version) = .ok id ∧ id.name = name ∧ id.version = version) ∧
    (∀ name version e, make name version = .error e → e.value = name ++ "-" ++ version) ∧
    (∀ value e, parse value = .error e → e.value = value) ∧
    Function.Injective display ∧
    (∀ v id, decoder.ofValue v = .ok id ↔ v = .text id.display) ∧
    (∀ text id, decoder.parse text = .ok id ↔ Json.parse text = .ok (.text id.display)) ∧
    (∀ (id : StackId) layout, decoder.parse (Utf8.encode (id.toValue.toText layout)) = .ok id) ∧
    ∀ value layout id, decoder.parse (Utf8.encode ((Value.text value).toText layout)) = .ok id →
      id.toValue = .text value := by
  refine ⟨fun _ => exists_parse_iff, ?_, fun _ _ _ => make_eq_ok_iff_parse, ?_, ?_,
    display_injective, fun _ _ => ofValue_eq_ok_iff, fun _ _ => decode_eq_ok_iff,
    fun _ _ => decode_string_eq_ok_iff.mpr rfl, fun _ _ _ => decode_string_eq_ok_iff.mp⟩
  · intro value name version h
    obtain ⟨id, hname, hversion, hdisplay⟩ := h.exists_id
    exact ⟨id, parse_eq_ok_iff.mpr hdisplay, hname, hversion, hdisplay⟩
  · intro name version e h
    rw [eq_of_make_eq_error h, join]
  · intro value e h
    rw [eq_of_parse_eq_error h]

theorem written_forms_correspond_sample :
    ∃ id, parse "HDP-3.0-beta" = .ok id ∧ id.name = "HDP" ∧ id.version = "3.0-beta" ∧
      make "HDP-3.0" "beta" = .error ⟨"HDP-3.0-beta"⟩ := by
  obtain ⟨-, hreads, hmake, hrefused, -⟩ := written_forms_correspond
  have hwritten : IsWritten "HDP-3.0-beta" "HDP" "3.0-beta" :=
    isWritten_iff.mpr ⟨rfl, by decide, by decide⟩
  obtain ⟨id, hid, hname, hversion, -⟩ := hreads _ _ _ hwritten
  refine ⟨id, hid, hname, hversion, ?_⟩
  cases h : make "HDP-3.0" "beta" with
  | ok id' =>
      obtain ⟨hid', hname', -⟩ := (hmake _ _ _).mp h
      have hsame : id = id' := Except.ok.inj (hid.symm.trans hid')
      rw [← hsame, hname] at hname'
      exact absurd hname' (by decide)
  | error e => exact congrArg Except.error (congrArg Invalid.mk (hrefused _ _ e h))

end ClusterBlueprint.StackId
