import ClusterBlueprint.Proofs.Blueprint.Structure

/-!
Canonical forms. Copies of a configuration, a host group or a blueprint have the same sorted value,
whatever the order inside their maps: on the way out, the exchange of the two keys of attributes
leaves no trace of it but the order of members (`ReadBack.toValue_sorted`).
-/

namespace ClusterBlueprint

open Json (Value Decoder)

namespace GroupEntry

theorem textMembers_sorted_congr {m n : OrderedMap String String} (h : m.Related (· = ·) n) :
    (textMembers m).sorted = (textMembers n).sorted :=
  Decoder.sorted_entries_congr (h.imp fun _ _ hab => congrArg (fun s => Value.sorted (.text s)) hab)

theorem attributesValue_sorted_congr {m n : OrderedMap String (OrderedMap String String)}
    (h : m.Related (OrderedMap.Related (· = ·)) n) :
    (attributesValue m).sorted = (attributesValue n).sorted :=
  Decoder.sorted_entries_congr (h.imp fun _ _ => textMembers_sorted_congr)

theorem toValue_sorted_congr {e e' : GroupEntry}
    (hproperties : e.properties.Related (· = ·) e'.properties)
    (hattributes : e.attributes.Related (OrderedMap.Related (· = ·)) e'.attributes) :
    e.toValue.sorted = e'.toValue.sorted := by
  have hmembers : Value.sortedMembers e.members = Value.sortedMembers e'.members := by
    rw [members, members, Value.sortedMembers_append, Value.sortedMembers_append]
    simp only [Value.sortedMembers_memberUnless, hproperties.isEmpty, hattributes.isEmpty,
      textMembers_sorted_congr hproperties, attributesValue_sorted_congr hattributes]
  rw [toValue_eq, toValue_eq, Value.sorted_object, Value.sorted_object, hmembers]

theorem related_transpose {m n : OrderedMap String (OrderedMap String String)}
    (h : ∀ outer inner, m.cell? outer inner = n.cell? outer inner) :
    (transpose m).Related (OrderedMap.Related (· = ·)) (transpose n) := by
  have hrows (attributes : OrderedMap String (OrderedMap String String)) (inner : String)
      (byOuter : OrderedMap String String) (hfound : (transpose attributes).get? inner =
        some byOuter) : ∃ outer value, byOuter.get? outer = some value :=
    OrderedMap.exists_get?_of_ne_empty (allValues_transpose attributes inner byOuter hfound)
  refine (OrderedMap.related_of_views OrderedMap.get? OrderedMap.get? (hrows m) (hrows n)
    ?_).imp fun _ _ => OrderedMap.related_eq_iff.mpr
  intro inner outer
  apply (cell?_transpose m outer inner).trans
  rw [h, ← cell?_transpose n]
  rfl

end GroupEntry

namespace Configuration

theorem IsCopyOf.isEmpty {c' c : Configuration} (h : c'.IsCopyOf c) : c'.isEmpty = c.isEmpty := by
  rw [Configuration.isEmpty, Configuration.isEmpty,
    (related_properties_of_agrees h.agrees).isEmpty, (related_attributes_of_agrees h.agrees).isEmpty]

theorem IsCopyOf.toValue_sorted {c' c : Configuration} (h : c'.IsCopyOf c) :
    c'.toValue.sorted = c.toValue.sorted := by
  have hkeys : c'.properties.keys = c.properties.keys := h.groups
  have hcells (group outer inner : String) :
      ((c'.attributes.get? group).getD ∅).cell? outer inner =
        ((c.attributes.get? group).getD ∅).cell? outer inner := by
    rcases (related_attributes_of_agrees h.agrees).found_or_absent group with
      ⟨a', a, ha', ha, hrelated⟩ | ⟨ha', ha⟩
    · rw [ha', ha]
      exact hrelated.cell? outer inner
    · rw [ha', ha]
  rw [toValue, toValue, Value.sorted_array, Value.sorted_array, List.map_map, List.map_map,
    OrderedMap.map_entries_eq_filterMap_keys, OrderedMap.map_entries_eq_filterMap_keys, hkeys,
    Value.array.injEq]
  apply List.filterMap_congr
  intro group _
  rcases (related_properties_of_agrees h.agrees).found_or_absent group with
    ⟨p', p, hp', hp, hrelated⟩ | ⟨hp', hp⟩
  · have hentry : (c'.groupEntry group p').toValue.sorted = (c.groupEntry group p).toValue.sorted :=
      GroupEntry.toValue_sorted_congr hrelated (GroupEntry.related_transpose (hcells group))
    rw [hp', hp]
    simp only [Option.map_some, Function.comp_apply, Value.sorted_object, Value.sortedMembers,
      hentry]
  · rw [hp', hp]
    rfl

theorem IsCopyOf.memberUnless {c' c : Configuration} (h : c'.IsCopyOf c) :
    Value.sortedMembers (Value.memberUnless c'.isEmpty "configurations" c'.toValue) =
      Value.sortedMembers (Value.memberUnless c.isEmpty "configurations" c.toValue) := by
  rw [Value.sortedMembers_memberUnless, Value.sortedMembers_memberUnless, h.isEmpty,
    h.toValue_sorted]

end Configuration

theorem HostGroup.IsCopyOf.toValue_sorted {g' g : HostGroup} (h : g'.IsCopyOf g) :
    g'.toValue.sorted = g.toValue.sorted := by
  obtain ⟨hname, hkind, hcardinality, hcomponents, -⟩ := Blueprint.sameHostGroup_iff.mp h.same
  have hmembers : Value.sortedMembers g'.members = Value.sortedMembers g.members := by
    rw [members, hname, hkind, hcardinality, hcomponents, Value.sortedMembers_append,
      h.configuration.memberUnless, ← Value.sortedMembers_append, ← members]
  rw [toValue_eq, toValue_eq, Value.sorted_object, Value.sorted_object, hmembers]

namespace Blueprint

theorem CopiesSettings.settingsValue_sorted {entry' entry : SettingsEntry}
    (h : CopiesSettings entry' entry) :
    (settingsValue entry').sorted = (settingsValue entry).sorted := by
  have hobject := Decoder.sorted_entries_congr (f := id)
    (h.related.imp fun _ _ hvw => congrArg Value.sorted hvw)
  simpa [settingsValue] using hobject

theorem map_sorted_of_forall₂ {α : Type} {r : α → α → Prop} {f : α → Value} {as bs : List α}
    (hr : ∀ a b, r a b → (f a).sorted = (f b).sorted) (h : List.Forall₂ r as bs) :
    (Value.array (as.map f)).sorted = (Value.array (bs.map f)).sorted := by
  rw [Value.sorted_array, Value.sorted_array, List.map_map, List.map_map, Value.array.injEq,
    ← List.forall₂_eq_eq_eq, List.forall₂_map_left_iff, List.forall₂_map_right_iff]
  exact h.imp hr

/-- What is read back of a blueprint in its normal form has the same sorted value. -/
theorem ReadBack.toValue_sorted {b b' : Blueprint} (h : ReadBack b b')
    (hstackIds : stackMap b.stackIds.values = b.stackIds) :
    b'.toValue.sorted = b.toValue.sorted := by
  have hempty : b'.settings.isEmpty = b.settings.isEmpty := by
    rw [Bool.eq_iff_iff, List.isEmpty_iff_length_eq_zero, List.isEmpty_iff_length_eq_zero,
      h.settings.length_eq]
  have hgroups := map_sorted_of_forall₂ (f := HostGroup.toValue)
    (fun _ _ => HostGroup.IsCopyOf.toValue_sorted) h.hostGroups
  have hsettings := map_sorted_of_forall₂ (f := settingsValue)
    (fun _ _ => CopiesSettings.settingsValue_sorted) h.settings
  have hmembers : Value.sortedMembers b'.members = Value.sortedMembers b.members := by
    simp only [members, Value.sortedMembers_append, Value.sortedMembers, h.name, h.stackIds,
      hstackIds, h.configuration.memberUnless, Value.sortedMembers_memberUnless, h.security, hempty,
      hgroups, hsettings, List.cons_append]
  rw [toValue_eq, toValue_eq, Value.sorted_object, Value.sorted_object, hmembers]

theorem ReadBack.hasReadableSettings {b b' : Blueprint} (h : ReadBack b b')
    (hsettings : b.HasReadableSettings) : b'.HasReadableSettings := by
  intro entry' hentry' m hm
  obtain ⟨entry, hentry, hcopy⟩ := Decoder.exists_of_mem_of_forall₂ h.settings hentry'
  obtain ⟨v, hv, heq⟩ := hcopy.related.found (OrderedMap.get?_eq_some_iff.mpr hm)
  exact heq ▸ hsettings entry hentry (m.1, v) (OrderedMap.get?_eq_some_iff.mp hv)

theorem fillHostGroup_of_isCopyOf {g' g : HostGroup} (h : g'.IsCopyOf g)
    (hfill : fillHostGroup g = g) : fillHostGroup g' = g' := by
  obtain ⟨-, -, hcardinality, hcomponents, -⟩ := sameHostGroup_iff.mp h.same
  have hcardinality' := congrArg HostGroup.cardinality hfill
  have hcomponents' := congrArg HostGroup.components hfill
  rw [fillHostGroup] at hcardinality' hcomponents' ⊢
  obtain ⟨name', kind', cardinality', components', configuration'⟩ := g'
  dsimp only at *
  rw [hcardinality, hcomponents, hcardinality', hcomponents']

theorem map_fillHostGroup_of_copies {gs' gs : List HostGroup}
    (h : List.Forall₂ HostGroup.IsCopyOf gs' gs) (hfill : gs.map fillHostGroup = gs) :
    gs'.map fillHostGroup = gs' := by
  induction h with
  | nil => rfl
  | cons hcopy _ ih =>
      rw [List.map_cons, List.cons.injEq] at hfill
      rw [List.map_cons, fillHostGroup_of_isCopyOf hcopy hfill.1, ih hfill.2]

/-- What is read back of a normal form is a normal form. -/
theorem ReadBack.fill_eq {b b' : Blueprint} (h : ReadBack b b') (hfill : b.fill = b) :
    b'.fill = b' := by
  have hstackIds : stackMap b'.stackIds.values = b'.stackIds := by
    rw [h.stackIds]
    exact stackMap_values_stackMap _
  have hhostGroups : b'.hostGroups.map fillHostGroup = b'.hostGroups :=
    map_fillHostGroup_of_copies h.hostGroups (congrArg Blueprint.hostGroups hfill)
  rw [fill, hstackIds, hhostGroups]

end Blueprint

end ClusterBlueprint
