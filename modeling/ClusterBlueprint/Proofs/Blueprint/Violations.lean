import ClusterBlueprint.Proofs.Blueprint.Structure
import ClusterBlueprint.Proofs.Text.Pattern

/-!
Violations in document order. The check of components and the check of host groups are the same run
over named items (`checkItems`), which stops at the first item at fault. What counts as a violation,
and which of them comes first, is said without the run (`FirstViolation`), and the check finds a
violation exactly where it is the first one (`check_iff_firstViolation`).
-/

namespace ClusterBlueprint.Blueprint

section NamedItems

variable {α : Type} (name : α → String) (unnamed : Violation) (repeated : α → Violation)
  (inside : α → Except Violation Unit)

/-- Checks a named item, given the names of those before. -/
def checkItem (seen : List String) (a : α) : Except Violation Unit :=
  if Text.isBlankText (name a) then .error unnamed
  else if name a ∈ seen then .error (repeated a)
  else inside a

def checkItems : (seen : List String) → List α → Except Violation Unit
  | _, [] => .ok ()
  | seen, a :: rest =>
      match checkItem name unnamed repeated inside seen a with
      | .error e => .error e
      | .ok () => checkItems (name a :: seen) rest

variable {name unnamed repeated inside}

theorem checkItem_eq_error_iff {seen : List String} {a : α} {e : Violation} :
    checkItem name unnamed repeated inside seen a = .error e ↔
      Text.isBlankText (name a) = true ∧ unnamed = e ∨
        Text.isBlankText (name a) = false ∧
          (name a ∈ seen ∧ repeated a = e ∨ name a ∉ seen ∧ inside a = .error e) := by
  rw [checkItem]
  by_cases hblank : Text.isBlankText (name a) = true
  · simp [hblank]
  · by_cases hseen : name a ∈ seen
    · simp [hblank, hseen]
    · simp [hblank, hseen]

/-- A run that passes over the first items goes on with their names in its hands. -/
theorem checkItems_append {seen : List String} {before : List α}
    (h : checkItems name unnamed repeated inside seen before = .ok ()) (rest : List α) :
    checkItems name unnamed repeated inside seen (before ++ rest) =
      checkItems name unnamed repeated inside ((before.map name).reverse ++ seen) rest := by
  induction before generalizing seen with
  | nil => rfl
  | cons a before ih =>
      rw [List.cons_append, checkItems]
      rw [checkItems] at h
      cases hitem : checkItem name unnamed repeated inside seen a with
      | error e =>
          rw [hitem] at h
          nomatch h
      | ok u =>
          rw [hitem] at h
          simp [ih h]

theorem exists_of_checkItems_eq_error {seen : List String} {items : List α} {e : Violation}
    (h : checkItems name unnamed repeated inside seen items = .error e) :
    ∃ before a after, items = before ++ a :: after ∧
      checkItems name unnamed repeated inside seen before = .ok () ∧
      checkItem name unnamed repeated inside ((before.map name).reverse ++ seen) a = .error e := by
  induction items generalizing seen with
  | nil => nomatch h
  | cons a items ih =>
      rw [checkItems] at h
      cases hitem : checkItem name unnamed repeated inside seen a with
      | error e' =>
          rw [hitem] at h
          exact ⟨[], a, items, rfl, rfl, hitem.trans h⟩
      | ok u =>
          rw [hitem] at h
          obtain ⟨before, a', after, rfl, hbefore, herror⟩ := ih h
          refine ⟨a :: before, a', after, rfl, ?_, ?_⟩
          · rw [checkItems, hitem]
            exact hbefore
          · simpa using herror

/-- A run fails at the first item at fault: those before it have passed. -/
theorem checkItems_eq_error_iff {items : List α} {e : Violation} :
    checkItems name unnamed repeated inside [] items = .error e ↔
      ∃ before a after, items = before ++ a :: after ∧
        checkItems name unnamed repeated inside [] before = .ok () ∧
        checkItem name unnamed repeated inside (before.map name).reverse a = .error e := by
  constructor
  · intro h
    simpa using exists_of_checkItems_eq_error h
  · rintro ⟨before, a, after, rfl, hbefore, herror⟩
    rw [checkItems_append hbefore, List.append_nil, checkItems, herror]

end NamedItems

theorem checkComponents_eq (blueprint hostGroup : String) (seen : List String)
    (components : List Component) :
    checkComponents blueprint hostGroup seen components =
      checkItems Component.name (.unnamedComponent blueprint hostGroup)
        (fun c => .duplicateComponent blueprint hostGroup c.name) (fun _ => .ok ()) seen
        components := by
  induction components generalizing seen with
  | nil => rfl
  | cons c rest ih =>
      rw [checkComponents, checkItems, checkItem, ih]
      split
      · rfl
      · split <;> rfl

theorem checkHostGroups_eq (blueprint : String) (seen : List String) (gs : List HostGroup) :
    checkHostGroups blueprint seen gs =
      checkItems HostGroup.name (.unnamedHostGroup blueprint)
        (fun g => .duplicateHostGroup blueprint g.name)
        (fun g => checkComponents blueprint g.name [] g.components) seen gs := by
  induction gs generalizing seen with
  | nil => rfl
  | cons g rest ih =>
      rw [checkHostGroups, checkItems, checkItem, ih]
      split
      · rfl
      · split <;> rfl

def lettersAndDigits : List Text.ClassItem :=
  [.range 'A' 'Z', .range 'a' 'z', .range '0' '9']

def nameCharacters : List Text.ClassItem :=
  lettersAndDigits ++ [.char '_', .char '.', .escaped '-']

def namePattern : Text.Pattern :=
  ⟨[(.within lettersAndDigits, .once), (.within nameCharacters, .zeroOrMore)]⟩

example : namePattern.text = "^[A-Za-z0-9][A-Za-z0-9_.\\-]*$" := by decide

theorem any_lettersAndDigits (c : Char) : lettersAndDigits.any (·.has c) = isNameStart c := by
  delta isNameStart Char.isAlphanum Char.isAlpha Char.isUpper Char.isLower Char.isDigit
  simp only [lettersAndDigits, List.any_cons, List.any_nil, Text.ClassItem.has, Bool.or_false,
    Bool.decide_and, ← Bool.or_assoc]
  rfl

theorem any_nameCharacters (c : Char) : nameCharacters.any (·.has c) = isNameRest c := by
  rw [nameCharacters, List.any_append, any_lettersAndDigits]
  simp only [List.any_cons, List.any_nil, Text.ClassItem.has, isNameRest, isNameStart,
    Bool.or_false, ← Bool.or_assoc]

theorem matches_namePattern_iff {name : String} :
    namePattern.Matches name ↔ isValidName name = true := by
  simp only [Text.Pattern.Matches, namePattern, Text.Pattern.inParts_once,
    Text.Pattern.inParts_last, Text.CharClass.has, Text.Times.Allows, any_lettersAndDigits,
    any_nameCharacters, and_true]
  rw [isValidName]
  cases name.toList with
  | nil => simp
  | cons c rest => simp

/-- Whether the names of items are different and not blank. -/
structure AreNamed {α : Type} (name : α → String) (items : List α) : Prop where
  not_blank : ∀ a ∈ items, Text.isBlankText (name a) = false
  distinct : (items.map name).Nodup

structure AreProper (gs : List HostGroup) : Prop where
  named : AreNamed HostGroup.name gs
  components : ∀ g ∈ gs, AreNamed Component.name g.components

structure HasProperHead (b : Blueprint) : Prop where
  name_not_blank : Text.isBlankText b.name = false
  name_matches : namePattern.Matches b.name
  declares_stacks : b.stackIds ≠ ∅

structure IsProper (b : Blueprint) : Prop extends HasProperHead b where
  hostGroups : AreProper b.hostGroups

/-- The first violation among the components of a host group. -/
inductive FirstInComponents (blueprint : String) (g : HostGroup) : Violation → Prop where
  | unnamed {before c after} : g.components = before ++ c :: after →
      AreNamed Component.name before → Text.isBlankText c.name = true →
      FirstInComponents blueprint g (.unnamedComponent blueprint g.name)
  | duplicate {before c after} : g.components = before ++ c :: after →
      AreNamed Component.name before → Text.isBlankText c.name = false →
      c.name ∈ before.map Component.name →
      FirstInComponents blueprint g (.duplicateComponent blueprint g.name c.name)

/-- The first violation among the host groups of a blueprint. The name of a host group comes before
what is in it. -/
inductive FirstInHostGroups (blueprint : String) (gs : List HostGroup) : Violation → Prop where
  | unnamed {before g after} : gs = before ++ g :: after → AreProper before →
      Text.isBlankText g.name = true → FirstInHostGroups blueprint gs (.unnamedHostGroup blueprint)
  | duplicate {before g after} : gs = before ++ g :: after → AreProper before →
      Text.isBlankText g.name = false → g.name ∈ before.map HostGroup.name →
      FirstInHostGroups blueprint gs (.duplicateHostGroup blueprint g.name)
  | inside {before g after e} : gs = before ++ g :: after → AreProper before →
      Text.isBlankText g.name = false → g.name ∉ before.map HostGroup.name →
      FirstInComponents blueprint g e → FirstInHostGroups blueprint gs e

/-- The first violation of the structure of a blueprint. -/
inductive FirstViolation (b : Blueprint) : Violation → Prop where
  | missingName : Text.isBlankText b.name = true → FirstViolation b .missingName
  | invalidName : Text.isBlankText b.name = false → ¬ namePattern.Matches b.name →
      FirstViolation b (.invalidName b.name)
  | missingStackIds : Text.isBlankText b.name = false → namePattern.Matches b.name →
      b.stackIds = ∅ → FirstViolation b (.missingStackIds b.name)
  | inHostGroups {e} : HasProperHead b → FirstInHostGroups b.name b.hostGroups e →
      FirstViolation b e

theorem checkComponents_eq_ok_iff_areNamed {blueprint hostGroup : String}
    {components : List Component} :
    checkComponents blueprint hostGroup [] components = .ok () ↔
      AreNamed Component.name components := by
  rw [checkComponents_eq_ok_iff]
  constructor
  · rintro ⟨hblank, hnodup⟩
    exact ⟨fun c hc => (hblank c hc).1, hnodup⟩
  · rintro ⟨hblank, hnodup⟩
    exact ⟨fun c hc => ⟨hblank c hc, List.not_mem_nil⟩, hnodup⟩

theorem checkHostGroups_eq_ok_iff_areProper {blueprint : String} {gs : List HostGroup} :
    checkHostGroups blueprint [] gs = .ok () ↔ AreProper gs := by
  rw [checkHostGroups_eq_ok_iff]
  constructor
  · rintro ⟨hgroups, hnodup⟩
    refine ⟨⟨fun g hg => (hgroups g hg).1, hnodup⟩, fun g hg => ?_⟩
    obtain ⟨-, -, hblank, hdistinct⟩ := hgroups g hg
    exact ⟨hblank, hdistinct⟩
  · rintro ⟨⟨hblank, hnodup⟩, hcomponents⟩
    refine ⟨fun g hg => ⟨hblank g hg, List.not_mem_nil, ?_⟩, hnodup⟩
    exact ⟨(hcomponents g hg).not_blank, (hcomponents g hg).distinct⟩

theorem checkComponents_eq_error_iff {blueprint : String} {g : HostGroup} {e : Violation} :
    checkComponents blueprint g.name [] g.components = .error e ↔
      FirstInComponents blueprint g e := by
  rw [checkComponents_eq, checkItems_eq_error_iff]
  simp only [← checkComponents_eq, checkComponents_eq_ok_iff_areNamed, checkItem_eq_error_iff,
    List.mem_reverse]
  constructor
  · rintro ⟨before, c, after, hsplit, hbefore, ⟨hblank, rfl⟩ | ⟨hblank, ⟨hrepeat, rfl⟩ | hinside⟩⟩
    · exact .unnamed hsplit hbefore hblank
    · exact .duplicate hsplit hbefore hblank hrepeat
    · nomatch hinside.2
  · rintro (⟨hsplit, hbefore, hblank⟩ | ⟨hsplit, hbefore, hblank, hrepeat⟩)
    · exact ⟨_, _, _, hsplit, hbefore, .inl ⟨hblank, rfl⟩⟩
    · exact ⟨_, _, _, hsplit, hbefore, .inr ⟨hblank, .inl ⟨hrepeat, rfl⟩⟩⟩

theorem checkHostGroups_eq_error_iff {blueprint : String} {gs : List HostGroup} {e : Violation} :
    checkHostGroups blueprint [] gs = .error e ↔ FirstInHostGroups blueprint gs e := by
  rw [checkHostGroups_eq, checkItems_eq_error_iff]
  simp only [← checkHostGroups_eq, checkHostGroups_eq_ok_iff_areProper, checkItem_eq_error_iff,
    checkComponents_eq_error_iff, List.mem_reverse]
  constructor
  · rintro ⟨before, g, after, hsplit, hbefore,
      ⟨hblank, rfl⟩ | ⟨hblank, ⟨hrepeat, rfl⟩ | ⟨hnew, hinside⟩⟩⟩
    · exact .unnamed hsplit hbefore hblank
    · exact .duplicate hsplit hbefore hblank hrepeat
    · exact .inside hsplit hbefore hblank hnew hinside
  · rintro (⟨hsplit, hbefore, hblank⟩ | ⟨hsplit, hbefore, hblank, hrepeat⟩ |
      ⟨hsplit, hbefore, hblank, hnew, hinside⟩)
    · exact ⟨_, _, _, hsplit, hbefore, .inl ⟨hblank, rfl⟩⟩
    · exact ⟨_, _, _, hsplit, hbefore, .inr ⟨hblank, .inl ⟨hrepeat, rfl⟩⟩⟩
    · exact ⟨_, _, _, hsplit, hbefore, .inr ⟨hblank, .inr ⟨hnew, hinside⟩⟩⟩

theorem HasProperHead.check_eq {b : Blueprint} (h : b.HasProperHead) :
    b.check = checkHostGroups b.name [] b.hostGroups := by
  have hempty : b.stackIds.isEmpty = false :=
    Bool.eq_false_iff.mpr fun he => h.declares_stacks (OrderedMap.isEmpty_eq_true_iff.mp he)
  simp [check, h.name_not_blank, matches_namePattern_iff.mp h.name_matches, hempty]

theorem isProper_of_check {b : Blueprint} (h : b.check = .ok ()) : b.IsProper := by
  obtain ⟨hblank, hvalid, hempty, -, -⟩ := check_eq_ok_iff.mp h
  have hhead : b.HasProperHead := by
    refine ⟨hblank, matches_namePattern_iff.mpr hvalid, ?_⟩
    rintro hnone
    rw [OrderedMap.isEmpty_eq_true_iff.mpr hnone] at hempty
    nomatch hempty
  rw [hhead.check_eq] at h
  exact ⟨hhead, checkHostGroups_eq_ok_iff_areProper.mp h⟩

theorem firstViolation_of_check {b : Blueprint} {e : Violation} (h : b.check = .error e) :
    b.FirstViolation e := by
  by_cases hblank : Text.isBlankText b.name = true
  · rw [check, if_pos hblank] at h
    cases h
    exact .missingName hblank
  rw [Bool.not_eq_true] at hblank
  by_cases hmatches : namePattern.Matches b.name
  · by_cases hempty : b.stackIds = ∅
    · simp only [check, hblank, matches_namePattern_iff.mp hmatches,
        OrderedMap.isEmpty_eq_true_iff.mpr hempty] at h
      cases h
      exact .missingStackIds hblank hmatches hempty
    · have hhead : b.HasProperHead := ⟨hblank, hmatches, hempty⟩
      rw [hhead.check_eq] at h
      exact .inHostGroups hhead (checkHostGroups_eq_error_iff.mp h)
  · have hinvalid : isValidName b.name = false :=
      Bool.eq_false_iff.mpr fun hvalid => hmatches (matches_namePattern_iff.mpr hvalid)
    simp only [check, hblank, hinvalid] at h
    cases h
    exact .invalidName hblank hmatches

theorem check_of_firstViolation {b : Blueprint} {e : Violation} (h : b.FirstViolation e) :
    b.check = .error e := by
  cases h with
  | missingName hblank => simp [check, hblank]
  | invalidName hblank hmatches => simp_all [check, matches_namePattern_iff]
  | missingStackIds hblank hmatches hempty =>
      simp [check, hblank, matches_namePattern_iff.mp hmatches,
        OrderedMap.isEmpty_eq_true_iff.mpr hempty]
  | inHostGroups hhead hgroups =>
      rw [hhead.check_eq]
      exact checkHostGroups_eq_error_iff.mpr hgroups

theorem check_of_isProper {b : Blueprint} (h : b.IsProper) : b.check = .ok () := by
  rw [h.toHasProperHead.check_eq]
  exact checkHostGroups_eq_ok_iff_areProper.mpr h.hostGroups

theorem normalize_eq_error_iff {b : Blueprint} {e : Violation} :
    b.normalize = .error e ↔ b.check = .error e := by
  rw [normalize]
  cases b.check with
  | error e' => simp
  | ok u => simp

/-- The check passes the blueprints with proper names, and of the others it gives the violation that
comes first in document order. Neither more nor less keeps a blueprint from its normal form. -/
theorem check_iff_firstViolation (b : Blueprint) :
    (b.check = .ok () ↔ b.IsProper) ∧ (∀ e, b.check = .error e ↔ b.FirstViolation e) ∧
      ((∃ n, b.normalize = .ok n) ↔ b.IsProper) ∧
      ∀ e, b.normalize = .error e ↔ b.FirstViolation e := by
  have hcheck : b.check = .ok () ↔ b.IsProper := ⟨isProper_of_check, check_of_isProper⟩
  have herror (e : Violation) : b.check = .error e ↔ b.FirstViolation e :=
    ⟨firstViolation_of_check, check_of_firstViolation⟩
  refine ⟨hcheck, herror, ?_, fun e => normalize_eq_error_iff.trans (herror e)⟩
  rw [← hcheck]
  constructor
  · rintro ⟨n, hn⟩
    exact (normalize_eq_ok_iff.mp hn).1
  · intro h
    exact ⟨b.fill, normalize_eq_ok_iff.mpr ⟨h, rfl⟩⟩

end ClusterBlueprint.Blueprint
