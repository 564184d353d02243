import ClusterBlueprint.Blueprint.Structure
import ClusterBlueprint.Proofs.Blueprint.Wire
import Mathlib.Data.List.Nodup

namespace ClusterBlueprint.Blueprint

theorem checkComponents_congr {blueprint hostGroup : String} {seen : List String}
    {components components' : List Component}
    (h : components.map Component.name = components'.map Component.name) :
    checkComponents blueprint hostGroup seen components =
      checkComponents blueprint hostGroup seen components' := by
  induction components generalizing components' seen with
  | nil =>
      rw [List.map_nil, eq_comm, List.map_eq_nil_iff] at h
      rw [h]
  | cons c rest ih =>
      cases components' with
      | nil => nomatch h
      | cons c' rest' =>
          rw [List.map_cons, List.map_cons, List.cons.injEq] at h
          rw [checkComponents, checkComponents, h.1, ih h.2]

/-- Whether two host groups and their components have the same names. -/
def SameNames (g g' : HostGroup) : Prop :=
  g.name = g'.name ∧ g.components.map Component.name = g'.components.map Component.name

theorem checkHostGroups_congr {blueprint : String} {seen : List String} {gs gs' : List HostGroup}
    (h : List.Forall₂ SameNames gs gs') :
    checkHostGroups blueprint seen gs = checkHostGroups blueprint seen gs' := by
  induction h generalizing seen with
  | nil => rfl
  | cons hg _ ih =>
      rw [checkHostGroups, checkHostGroups, hg.1, checkComponents_congr hg.2, ih]

/-- The check looks at names, and whether there are stack ids. -/
theorem check_congr {b b' : Blueprint} (hname : b.name = b'.name)
    (hstackIds : b.stackIds.isEmpty = b'.stackIds.isEmpty)
    (hhostGroups : List.Forall₂ SameNames b.hostGroups b'.hostGroups) : b.check = b'.check := by
  rw [check, check, hname, hstackIds, checkHostGroups_congr hhostGroups]

theorem checkComponents_eq_ok_iff {blueprint hostGroup : String} {seen : List String}
    {components : List Component} :
    checkComponents blueprint hostGroup seen components = .ok () ↔
      (∀ c ∈ components, Text.isBlankText c.name = false ∧ c.name ∉ seen) ∧
        (components.map Component.name).Nodup := by
  induction components generalizing seen with
  | nil => simp [checkComponents]
  | cons c rest ih =>
      rw [checkComponents, List.forall_mem_cons, List.map_cons, List.nodup_cons]
      by_cases hblank : Text.isBlankText c.name = true
      · simp [hblank]
      rw [if_neg hblank]
      by_cases hseen : c.name ∈ seen
      · simp [hseen]
      rw [if_neg hseen, ih]
      simp only [List.mem_cons, not_or, List.mem_map, not_exists, not_and]
      rw [Bool.not_eq_true] at hblank
      constructor
      · rintro ⟨hrest, hnodup⟩
        refine ⟨⟨⟨hblank, hseen⟩, fun c' hc' => ⟨(hrest c' hc').1, (hrest c' hc').2.2⟩⟩, ?_, hnodup⟩
        exact fun c' hc' => (hrest c' hc').2.1
      · rintro ⟨⟨-, hrest⟩, hnew, hnodup⟩
        exact ⟨fun c' hc' => ⟨(hrest c' hc').1, hnew c' hc', (hrest c' hc').2⟩, hnodup⟩

def HasNamedComponents (g : HostGroup) : Prop :=
  (∀ c ∈ g.components, Text.isBlankText c.name = false) ∧ (g.components.map Component.name).Nodup

theorem checkComponents_nil_seen (blueprint : String) {g : HostGroup} :
    checkComponents blueprint g.name [] g.components = .ok () ↔ HasNamedComponents g := by
  rw [checkComponents_eq_ok_iff]
  simp [HasNamedComponents]

theorem checkHostGroups_eq_ok_iff {blueprint : String} {seen : List String} {gs : List HostGroup} :
    checkHostGroups blueprint seen gs = .ok () ↔
      (∀ g ∈ gs, Text.isBlankText g.name = false ∧ g.name ∉ seen ∧ HasNamedComponents g) ∧
        (gs.map HostGroup.name).Nodup := by
  induction gs generalizing seen with
  | nil => simp [checkHostGroups]
  | cons g rest ih =>
      rw [checkHostGroups, List.forall_mem_cons, List.map_cons, List.nodup_cons]
      by_cases hblank : Text.isBlankText g.name = true
      · simp [hblank]
      rw [if_neg hblank]
      by_cases hseen : g.name ∈ seen
      · simp [hseen]
      rw [if_neg hseen]
      cases hcomponents : checkComponents blueprint g.name [] g.components with
      | error e =>
          have hnamed : ¬ HasNamedComponents g := by
            rw [← checkComponents_nil_seen blueprint, hcomponents]
            exact fun h => nomatch h
          simp [hnamed]
      | ok u =>
          have hnamed : HasNamedComponents g := (checkComponents_nil_seen blueprint).mp hcomponents
          rw [Bool.not_eq_true] at hblank
          simp only [ih, List.mem_cons, not_or, List.mem_map, not_exists, not_and]
          constructor
          · rintro ⟨hrest, hnodup⟩
            refine ⟨⟨⟨hblank, hseen, hnamed⟩, ?_⟩, fun g' hg' => (hrest g' hg').2.1.1, hnodup⟩
            exact fun g' hg' => ⟨(hrest g' hg').1, (hrest g' hg').2.1.2, (hrest g' hg').2.2⟩
          · rintro ⟨⟨-, hrest⟩, hnew, hnodup⟩
            refine ⟨fun g' hg' => ?_, hnodup⟩
            exact ⟨(hrest g' hg').1, ⟨hnew g' hg', (hrest g' hg').2.1⟩, (hrest g' hg').2.2⟩

/-- A blueprint passes the check when its name is valid, it has stack ids, and its host groups and
their components have names that are different and not blank. -/
theorem check_eq_ok_iff {b : Blueprint} :
    b.check = .ok () ↔ Text.isBlankText b.name = false ∧ isValidName b.name = true ∧
      b.stackIds.isEmpty = false ∧
      (∀ g ∈ b.hostGroups, Text.isBlankText g.name = false ∧ HasNamedComponents g) ∧
      (b.hostGroups.map HostGroup.name).Nodup := by
  rw [check]
  cases hblank : Text.isBlankText b.name with
  | true => simp
  | false =>
      cases hvalid : isValidName b.name with
      | false => simp
      | true =>
          cases hempty : b.stackIds.isEmpty with
          | true => simp
          | false => simp [checkHostGroups_eq_ok_iff]

theorem get?_stackMap {ids : List StackId} {key : String} {id : StackId}
    (h : (stackMap ids).get? key = some id) : key = id.display := by
  let Keyed (m : OrderedMap String StackId) : Prop :=
    ∀ key id, m.get? key = some id → key = id.display
  have hempty : Keyed ∅ := fun _ _ h => nomatch h
  have hkeyed : Keyed (stackMap ids) := by
    refine List.foldlRecOn (motive := Keyed) (ids.map fun id => (id.display, id)) _ hempty ?_
    intro m hm entry hentry key id hkey
    obtain ⟨id', -, rfl⟩ := List.mem_map.mp hentry
    rw [OrderedMap.get?_insert] at hkey
    by_cases hsame : key = id'.display
    · rw [if_pos hsame] at hkey
      cases hkey
      exact hsame
    · rw [if_neg hsame] at hkey
      exact hm key id hkey
  exact hkeyed key id h

theorem entries_stackMap (ids : List StackId) :
    ((stackMap ids).values.map fun id => (id.display, id)) = (stackMap ids).entries := by
  rw [OrderedMap.values, List.map_map]
  conv_rhs => rw [← List.map_id' (stackMap ids).entries]
  apply List.map_congr_left
  rintro ⟨key, id⟩ hentry
  exact Prod.ext (get?_stackMap (OrderedMap.get?_eq_some_iff.mpr hentry)).symm rfl

theorem stackMap_values_stackMap (ids : List StackId) :
    stackMap (stackMap ids).values = stackMap ids := by
  apply OrderedMap.ext_entries
  rw [stackMap, entries_stackMap]
  exact OrderedMap.entries_ofList (stackMap ids).distinct

theorem map_display_stackMap (ids : List StackId) :
    (stackMap ids).values.map StackId.display = (stackMap ids).keys := by
  have hentries := congrArg (List.map Prod.fst) (entries_stackMap ids)
  rwa [List.map_map] at hentries

theorem nodup_values_stackMap (ids : List StackId) : (stackMap ids).values.Nodup := by
  have hnodup := (stackMap ids).distinct
  rw [← OrderedMap.keys, ← map_display_stackMap] at hnodup
  exact List.Nodup.of_map _ hnodup

theorem isEmpty_stackMap (ids : List StackId) : (stackMap ids).isEmpty = ids.isEmpty := by
  cases ids with
  | nil => rfl
  | cons id ids =>
      have hne : stackMap (id :: ids) ≠ ∅ :=
        OrderedMap.insertAll_ne_empty ∅ (List.cons_ne_nil (id.display, id) _)
      exact Bool.eq_false_iff.mpr fun h => hne (OrderedMap.isEmpty_eq_true_iff.mp h)

theorem normalize_eq_ok_iff {b n : Blueprint} :
    b.normalize = .ok n ↔ b.check = .ok () ∧ n = b.fill := by
  rw [normalize]
  cases b.check with
  | error e => simp
  | ok u => simp [eq_comm]

theorem sameNames_fillHostGroup (g : HostGroup) : SameNames (fillHostGroup g) g := by
  refine ⟨rfl, ?_⟩
  rw [fillHostGroup, List.map_map]
  rfl

theorem check_fill (b : Blueprint) : b.fill.check = b.check := by
  refine check_congr rfl ?_ ?_
  · rw [fill, isEmpty_stackMap, OrderedMap.isEmpty_values]
  · rw [fill, List.forall₂_map_left_iff, List.forall₂_same]
    exact fun g _ => sameNames_fillHostGroup g

theorem isBlankText_fillCardinality (cardinality : Option String) :
    Text.isBlankText (fillCardinality cardinality) = false := by
  have hstandard : Text.isBlankText HostGroup.standardCardinality = false := by decide
  cases cardinality with
  | none => exact hstandard
  | some s =>
      rw [fillCardinality]
      split
      next hblank => exact hstandard
      next hblank => exact Bool.eq_false_iff.mpr hblank

theorem fillHostGroup_fillHostGroup (g : HostGroup) :
    fillHostGroup (fillHostGroup g) = fillHostGroup g := by
  have hcardinality : fillCardinality (some (fillCardinality g.cardinality)) =
      fillCardinality g.cardinality := by
    rw [fillCardinality, isBlankText_fillCardinality]
    rfl
  have hcomponents : (g.components.map fillComponent).map fillComponent =
      g.components.map fillComponent := by
    rw [List.map_map]
    rfl
  simp only [fillHostGroup, hcardinality, hcomponents]

theorem fill_fill (b : Blueprint) : b.fill.fill = b.fill := by
  have hstackIds : stackMap (stackMap b.stackIds.values).values = stackMap b.stackIds.values :=
    stackMap_values_stackMap _
  have hhostGroups : (b.hostGroups.map fillHostGroup).map fillHostGroup =
      b.hostGroups.map fillHostGroup := by
    rw [List.map_map]
    exact List.map_congr_left fun g _ => fillHostGroup_fillHostGroup g
  simp only [fill, hstackIds, hhostGroups]

/-- A normal form is its own normal form. -/
theorem normalize_of_normalize {b n : Blueprint} (h : b.normalize = .ok n) :
    n.normalize = .ok n := by
  rw [normalize_eq_ok_iff] at h ⊢
  obtain ⟨hcheck, rfl⟩ := h
  exact ⟨(check_fill b).trans hcheck, (fill_fill b).symm⟩

theorem normalize_withSecurity {b : Blueprint} (h : b.normalize = .ok b) (security : Security) :
    Blueprint.normalize { b with security := security } = .ok { b with security := security } := by
  rw [normalize_eq_ok_iff] at h ⊢
  obtain ⟨hcheck, hfill⟩ := h
  have hsecurity : ({ b with security := security } : Blueprint).fill =
      { b.fill with security := security } :=
    rfl
  refine ⟨hcheck, ?_⟩
  rw [hsecurity, ← hfill]

theorem sameHostGroup_iff {g g' : HostGroup} :
    sameHostGroup g g' = true ↔ g.name = g'.name ∧ g.kind = g'.kind ∧
      g.cardinality = g'.cardinality ∧ g.components = g'.components ∧
      g.configuration.agrees g'.configuration = true := by
  simp only [sameHostGroup, Bool.and_eq_true, beq_iff_eq, and_assoc]

theorem agrees_iff {b b' : Blueprint} :
    b.agrees b' = true ↔ b.name = b'.name ∧ b.stackIds.agrees (· == ·) b'.stackIds = true ∧
      pairwiseAgree sameHostGroup b.hostGroups b'.hostGroups = true ∧
      b.configuration.agrees b'.configuration = true ∧
      pairwiseAgree sameSettings b.settings b'.settings = true ∧ b.security = b'.security := by
  simp only [agrees, Bool.and_eq_true, beq_iff_eq, and_assoc]

theorem ReadBack.check {b b' : Blueprint} (h : ReadBack b b') : b'.check = b.check := by
  apply check_congr h.name
  · rw [h.stackIds, isEmpty_stackMap, OrderedMap.isEmpty_values]
  · apply h.hostGroups.imp
    intro g' g hcopy
    obtain ⟨hname, -, -, hcomponents, -⟩ := sameHostGroup_iff.mp hcopy.same
    exact ⟨hname, by rw [hcomponents]⟩

theorem sameHostGroup_fillHostGroup {g g' : HostGroup} (h : sameHostGroup g g' = true) :
    sameHostGroup (fillHostGroup g) (fillHostGroup g') = true := by
  rw [sameHostGroup_iff] at h ⊢
  obtain ⟨hname, hkind, hcardinality, hcomponents, hconfiguration⟩ := h
  refine ⟨hname, hkind, ?_, ?_, hconfiguration⟩
  · simp only [fillHostGroup, hcardinality]
  · simp only [fillHostGroup, hcomponents]

theorem ReadBack.stackIds_fill {b b' : Blueprint} (h : ReadBack b b') :
    b'.fill.stackIds = b.fill.stackIds := by
  rw [fill, fill, h.stackIds]
  exact stackMap_values_stackMap _

theorem ReadBack.agrees_fill {b b' : Blueprint} (h : ReadBack b b') :
    b'.fill.agrees b.fill = true := by
  have hstackIds : b'.fill.stackIds.agrees (· == ·) b.fill.stackIds = true := by
    rw [h.stackIds_fill]
    exact OrderedMap.agrees_beq_iff.mpr rfl
  have hhostGroups : pairwiseAgree sameHostGroup b'.fill.hostGroups b.fill.hostGroups = true := by
    rw [pairwiseAgree_iff, fill, fill, List.forall₂_map_left_iff, List.forall₂_map_right_iff]
    exact h.hostGroups.imp fun _ _ hcopy => sameHostGroup_fillHostGroup hcopy.same
  have hsettings : pairwiseAgree sameSettings b'.fill.settings b.fill.settings = true :=
    pairwiseAgree_iff.mpr (h.settings.imp fun _ _ hcopy => hcopy.same)
  exact agrees_iff.mpr
    ⟨h.name, hstackIds, hhostGroups, h.configuration.agrees, hsettings, h.security⟩

/-- What is read back of a blueprint has the normal form of the blueprint, or the same fault. -/
theorem ReadBack.normalize {b b' : Blueprint} (h : ReadBack b b') :
    (∀ e, b.normalize = .error e → b'.normalize = .error e) ∧
      ∀ n, b.normalize = .ok n →
        ∃ n', b'.normalize = .ok n' ∧ n'.agrees n = true ∧ n'.stackIds = n.stackIds := by
  constructor
  · intro e he
    rw [Blueprint.normalize] at he ⊢
    rw [h.check]
    cases hcheck : b.check with
    | error e' => rwa [hcheck] at he
    | ok u =>
        rw [hcheck] at he
        nomatch he
  · intro n hn
    obtain ⟨hcheck, rfl⟩ := normalize_eq_ok_iff.mp hn
    exact ⟨b'.fill, normalize_eq_ok_iff.mpr ⟨h.check.trans hcheck, rfl⟩, h.agrees_fill,
      h.stackIds_fill⟩

end ClusterBlueprint.Blueprint
