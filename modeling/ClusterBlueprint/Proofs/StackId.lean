import ClusterBlueprint.StackId
import ClusterBlueprint.Proofs.Result
import ClusterBlueprint.Proofs.Text.Pattern

namespace ClusterBlueprint.StackId

theorem eq_of_parts {id id' : StackId} (hname : id.name = id'.name)
    (hversion : id.version = id'.version) : id = id' := by
  cases id
  cases hname
  cases hversion
  rfl

theorem not_dash_of_isName {name : String} (h : isName name = true) :
    ∀ c ∈ name.toList, c ≠ '-' := by
  rw [isName, Bool.and_eq_true, List.all_eq_true] at h
  intro c hc
  exact bne_iff_ne.mp (h.2 c hc)

theorem splitAtDash_append {name : List Char} (hname : ∀ c ∈ name, c ≠ '-') (version : List Char) :
    splitAtDash (name ++ '-' :: version) = some (name, version) := by
  induction name with
  | nil => rfl
  | cons c name ih =>
      rw [List.forall_mem_cons] at hname
      rw [List.cons_append, splitAtDash, if_neg hname.1, ih hname.2]
      rfl

theorem append_of_splitAtDash {cs name version : List Char}
    (h : splitAtDash cs = some (name, version)) : cs = name ++ '-' :: version := by
  induction cs generalizing name with
  | nil => nomatch h
  | cons c cs ih =>
      rw [splitAtDash] at h
      split at h
      · rename_i hc
        cases h
        rw [hc, List.nil_append]
      · obtain ⟨⟨name', version'⟩, hrest, heq⟩ := Option.map_eq_some_iff.mp h
        cases heq
        rw [ih hrest, List.cons_append]

theorem make_eq (id : StackId) : make id.name id.version = .ok id := by
  rw [make, dif_pos id.isName_name, dif_pos id.isVersion_version]

theorem make_eq_ok {name version : String} {id : StackId} (h : make name version = .ok id) :
    id.name = name ∧ id.version = version := by
  rw [make] at h
  split at h
  · split at h
    · cases h
      exact ⟨rfl, rfl⟩
    · nomatch h
  · nomatch h

theorem toList_join (name version : String) :
    (join name version).toList = name.toList ++ '-' :: version.toList := by
  simp [join]

theorem parse_display (id : StackId) : parse id.display = .ok id := by
  rw [parse, display, toList_join, splitAtDash_append (not_dash_of_isName id.isName_name)]
  simp only [String.ofList_toList, make_eq]

theorem parse_eq_ok_iff {value : String} {id : StackId} :
    parse value = .ok id ↔ id.display = value := by
  constructor
  · intro h
    rw [parse] at h
    split at h
    · nomatch h
    · rename_i name version hsplit
      split at h
      · rename_i id' hmake
        cases h
        obtain ⟨hname, hversion⟩ := make_eq_ok hmake
        rw [← String.toList_inj, display, toList_join, hname, hversion, String.toList_ofList,
          String.toList_ofList]
        exact (append_of_splitAtDash hsplit).symm
      · nomatch h
  · rintro rfl
    exact parse_display id

/-- An id that is written like a pair is the id of the pair only where the name in the pair has no
dash. -/
theorem make_eq_ok_iff_of_display {id : StackId} {name version : String}
    (h : id.display = join name version) : make name version = .ok id ↔ '-' ∉ name.toList := by
  constructor
  · intro hmake hdash
    obtain ⟨hname, -⟩ := make_eq_ok hmake
    exact not_dash_of_isName id.isName_name _ (hname ▸ hdash) rfl
  · intro hdash
    have hsplit := splitAtDash_append (not_dash_of_isName id.isName_name) id.version.toList
    have hne : ∀ c ∈ name.toList, c ≠ '-' := by
      rintro c hc rfl
      exact hdash hc
    rw [← toList_join, ← display, h, toList_join, splitAtDash_append hne, Option.some.injEq,
      Prod.mk.injEq, String.toList_inj, String.toList_inj] at hsplit
    rw [hsplit.1, hsplit.2, make_eq]

theorem display_injective : Function.Injective display := by
  intro id id' h
  have hparse := parse_display id
  rw [h, parse_display] at hparse
  cases hparse
  rfl

def pattern : Text.Pattern :=
  ⟨[(.without [.blank, .char '-'], .oneOrMore), (.char '-', .once), (.notBlank, .oneOrMore)]⟩

example : pattern.text = "^[^\\s-]+-\\S+$" := by decide

theorem isVersion_iff {s : String} :
    isVersion s = true ↔ (∀ c ∈ s.toList, Text.isBlank c = false) ∧ s.toList.length ≠ 0 := by
  simp [isVersion, and_comm]

theorem isName_iff {s : String} :
    isName s = true ↔
      (∀ c ∈ s.toList, Text.isBlank c = false ∧ c ≠ '-') ∧ s.toList.length ≠ 0 := by
  rw [isName, Bool.and_eq_true, isVersion_iff, List.all_eq_true]
  simp only [bne_iff_ne]
  constructor
  · rintro ⟨⟨hblank, hlength⟩, hdash⟩
    exact ⟨fun c hc => ⟨hblank c hc, hdash c hc⟩, hlength⟩
  · rintro ⟨hchars, hlength⟩
    exact ⟨⟨fun c hc => (hchars c hc).1, hlength⟩, fun c hc => (hchars c hc).2⟩

theorem matches_pattern_iff {s : String} : pattern.Matches s ↔ ∃ id : StackId, id.display = s := by
  have hname (c : Char) : Text.CharClass.has (.without [.blank, .char '-']) c = true ↔
      Text.isBlank c = false ∧ c ≠ '-' := by
    simp [Text.CharClass.has, Text.ClassItem.has]
  have hversion (c : Char) : Text.CharClass.has .notBlank c = true ↔ Text.isBlank c = false := by
    simp [Text.CharClass.has]
  constructor
  · rintro ⟨name, rest, hs, hchars, hlength, hrest⟩
    obtain ⟨c, version, rfl, hdash, hrest⟩ := Text.Pattern.inParts_once.mp hrest
    obtain ⟨hchars', hlength'⟩ := Text.Pattern.inParts_last.mp hrest
    obtain rfl : c = '-' := beq_iff_eq.mp hdash
    have hisName : isName (String.ofList name) = true := by
      rw [isName_iff, String.toList_ofList]
      exact ⟨fun c hc => (hname c).mp (hchars c hc), hlength⟩
    have hisVersion : isVersion (String.ofList version) = true := by
      rw [isVersion_iff, String.toList_ofList]
      exact ⟨fun c hc => (hversion c).mp (hchars' c hc), hlength'⟩
    refine ⟨⟨String.ofList name, String.ofList version, hisName, hisVersion⟩, ?_⟩
    rw [display, ← String.toList_inj, toList_join, hs, String.toList_ofList, String.toList_ofList]
  · rintro ⟨id, rfl⟩
    obtain ⟨hchars, hlength⟩ := isName_iff.mp id.isName_name
    obtain ⟨hchars', hlength'⟩ := isVersion_iff.mp id.isVersion_version
    refine ⟨id.name.toList, '-' :: id.version.toList, toList_join _ _,
      fun c hc => (hname c).mpr (hchars c hc), hlength, ?_⟩
    refine Text.Pattern.inParts_once.mpr ⟨'-', id.version.toList, rfl, beq_self_eq_true _, ?_⟩
    exact Text.Pattern.inParts_last.mpr ⟨fun c hc => (hversion c).mpr (hchars' c hc), hlength'⟩

theorem decoder_ofValue_toValue (id : StackId) : decoder.ofValue id.toValue = .ok id := by
  simp only [decoder, toValue, Json.Decoder.refine, Json.Decoder.text, bind, Except.bind,
    parse_display]
  rfl

theorem ofValue_singleton {value : String} {ids : List StackId}
    (h : (Json.Decoder.list decoder).ofValue (.array [.text value]) = .ok ids) :
    ∃ id, id.display = value ∧ ids = [id] := by
  obtain ⟨id, hid, h⟩ := Result.bind_eq_ok h
  cases h
  exact ⟨id, parse_eq_ok_iff.mp (Result.mapError_eq_ok (Result.mapError_eq_ok hid)), rfl⟩

end ClusterBlueprint.StackId
