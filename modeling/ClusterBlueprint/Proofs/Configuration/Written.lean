import ClusterBlueprint.Proofs.Configuration.Entries
import ClusterBlueprint.Proofs.Configuration.Wire

/-!
Configurations that have been built, and their texts. A group with attributes exists and no
collection of attributes is empty, whatever has been done to a configuration; this is why nothing is
lost on the way out, where only the groups that exist are gone through (`isSound_of_built`), and why
a text gives the configuration back, read straight or by way of a value (`restores_of_built`).
-/

namespace ClusterBlueprint

open Json (Value Decoder Reads ReadsItem Layout)

/-- What stands in an object under a key, in the object that stands there under another, and so
on. -/
def Json.Value.at? : Value → List String → Option Value
  | v, [] => some v
  | .object members, key :: keys => (member? members key).bind fun v => at? v keys
  | _, _ :: _ => none

namespace GroupEntry

theorem at?_textMembers (m : OrderedMap String String) (key : String) :
    (textMembers m).at? [key] = (m.get? key).map .text := by
  rw [textMembers, Value.at?, Decoder.member?_map_entries]
  cases m.get? key <;> rfl

theorem at?_properties (e : GroupEntry) (key : String) :
    e.toValue.at? ["properties", key] = (e.properties.get? key).map .text := by
  rw [toValue_eq, Value.at?, e.member?_members.1]
  cases hempty : e.properties.isEmpty with
  | true =>
      rw [OrderedMap.isEmpty_eq_true_iff.mp hempty]
      rfl
  | false => exact at?_textMembers e.properties key

theorem at?_attributes (e : GroupEntry) (name key : String) :
    e.toValue.at? ["properties_attributes", name, key] = (e.attribute? key name).map .text := by
  rw [toValue_eq, Value.at?, e.member?_members.2, attribute?, OrderedMap.cell?]
  cases hempty : e.attributes.isEmpty with
  | true =>
      rw [OrderedMap.isEmpty_eq_true_iff.mp hempty]
      rfl
  | false =>
      simp only [Bool.false_eq_true, if_false, Option.bind_some]
      rw [attributesValue, Value.at?, Decoder.member?_map_entries]
      cases e.attributes.get? name with
      | none => rfl
      | some byKey => exact at?_textMembers byKey key

theorem at?_sections (e : GroupEntry) :
    (e.toValue.at? ["properties"] = none ↔ e.properties = ∅) ∧
      (e.toValue.at? ["properties_attributes"] = none ↔ e.attributes = ∅) := by
  rw [toValue_eq, Value.at?, Value.at?, e.member?_members.1, e.member?_members.2,
    ← OrderedMap.isEmpty_eq_true_iff, ← OrderedMap.isEmpty_eq_true_iff]
  constructor
  · cases e.properties.isEmpty <;> simp [Value.at?]
  · cases e.attributes.isEmpty <;> simp [Value.at?]

theorem reads_textMembers (m : OrderedMap String String) (depth : Nat) (layout : Layout)
    (level : Nat) :
    ReadsItem ((Decoder.orderedMap .property).read (depth + 1)) layout level (textMembers m) m :=
  ⟨(readable_textMembers m).1,
    Decoder.reads_orderedMap (fun s => ⟨rfl, Decoder.reads_property s depth layout (level + 1)⟩) m⟩

theorem reads_attributesValue (attributes : OrderedMap String (OrderedMap String String))
    (depth : Nat) (layout : Layout) (level : Nat) :
    ReadsItem ((Decoder.orderedMap (.orderedMap .property)).read (depth + 2)) layout level
      (attributesValue attributes) attributes :=
  ⟨(readable_attributesValue attributes).1,
    Decoder.reads_orderedMap (fun m => reads_textMembers m depth layout (level + 1)) attributes⟩

/-- A section that is left out when it is empty is read all the same. -/
theorem reads_section {α : Type} {d : Decoder (OrderedMap String α)} {depth : Nat} {layout : Layout}
    {level : Nat} {v : Value} {m : OrderedMap String α}
    (h : ReadsItem (d.read depth) layout level v m) :
    match if m.isEmpty then none else some v with
    | some v => ReadsItem (d.read depth) layout level v m
    | none => some ∅ = some m := by
  cases hempty : m.isEmpty with
  | true => exact congrArg some (OrderedMap.isEmpty_eq_true_iff.mp hempty).symm
  | false => exact h

theorem reads_toValue (e : GroupEntry) (depth : Nat) (layout : Layout) (level : Nat) :
    ReadsItem (decoder.read (depth + 3)) layout level e.toValue e := by
  refine ⟨e.readable_toValue.1, ?_⟩
  obtain ⟨hproperties, hattributes⟩ := e.member?_members
  rw [toValue_eq]
  refine Decoder.reads_record "ConfigTypeEntry" (by decide) e.nodup_keys_members ?_
    ⟨(e.properties, e.attributes, ()), ⟨?_, ?_, trivial⟩, rfl⟩
  · exact fun m hm => e.keys_members_sublist.subset (List.mem_map.mpr ⟨m, hm, rfl⟩)
  · rw [hproperties]
    exact reads_section (reads_textMembers e.properties (depth + 1) layout (level + 1))
  · rw [hattributes]
    exact reads_section (reads_attributesValue e.attributes depth layout (level + 1))

end GroupEntry

namespace Configuration

/-- What a configuration says about each of its groups. -/
def toEntries (c : Configuration) : List (String × GroupEntry) :=
  c.properties.entries.map fun (group, properties) => (group, c.groupEntry group properties)

theorem toValue_eq (c : Configuration) :
    c.toValue = .array (c.toEntries.map fun (group, e) => .object [(group, e.toValue)]) := by
  rw [toValue, toEntries, List.map_map]
  rfl

theorem keys_toEntries (c : Configuration) : c.groups = c.toEntries.map Prod.fst := by
  rw [toEntries, List.map_map]
  rfl

theorem exists_of_mem_toEntries {c : Configuration} {entry : String × GroupEntry}
    (h : entry ∈ c.toEntries) :
    ∃ properties, c.properties.get? entry.1 = some properties ∧
      entry.2 = c.groupEntry entry.1 properties := by
  obtain ⟨⟨group, properties⟩, hmem, rfl⟩ := List.mem_map.mp h
  exact ⟨properties, OrderedMap.get?_eq_some_iff.mpr hmem, rfl⟩

/-- A grounded configuration is read from its own text, from anywhere in a text. -/
theorem reads_toValue {c : Configuration} (hc : c.Grounded) (depth : Nat) (layout : Layout)
    (level : Nat) :
    ∃ c', ReadsItem (decoder.read (depth + 5)) layout level c.toValue c' ∧ c'.IsCopyOf c := by
  have hitems : List.Forall₂ (ReadsItem ((Decoder.orderedMap GroupEntry.decoder).read (depth + 4))
      layout (level + 1)) (c.toEntries.map fun (group, e) => .object [(group, e.toValue)])
      (c.toEntries.map fun (group, e) => OrderedMap.insert ∅ group e) := by
    rw [List.forall₂_map_left_iff, List.forall₂_map_right_iff, List.forall₂_same]
    rintro ⟨group, e⟩ -
    have hentry (e : GroupEntry) := e.reads_toValue depth layout (level + 2)
    refine ⟨Value.isWhole_object.mpr ?_, Decoder.reads_orderedMap hentry (.insert ∅ group e)⟩
    exact List.forall_mem_singleton.mpr e.readable_toValue.1
  have hread := Decoder.reads_map (Decoder.reads_list hitems) ofEntries
  rw [← toValue_eq] at hread
  refine ⟨_, ⟨c.readable_toValue.1, hread⟩, ?_⟩
  rw [ofEntries, List.foldl_map]
  apply isCopyOf_foldl_addEntry hc c.keys_toEntries
  intro entry hentry
  obtain ⟨properties, hproperties, heq⟩ := exists_of_mem_toEntries hentry
  rw [heq]
  exact groupEntry_tells hproperties

/-- Whether a value is the entry of a group in the list of a configuration: an object with the group
alone, with a section for properties and one for attributes where there are any, and in them all
that the configuration says about the group, as strings. -/
structure IsEntryOf (item : Value) (c : Configuration) (group : String) : Prop where
  single : ∃ sections, item = .object [(group, .object sections)] ∧
    (sections.map Prod.fst).Sublist ["properties", "properties_attributes"]
  no_properties : item.at? [group, "properties"] = none ↔
    ∀ key, c.property? group key = none
  no_attributes : item.at? [group, "properties_attributes"] = none ↔
    ∀ key name, c.attribute? group key name = none
  properties : ∀ key,
    item.at? [group, "properties", key] = (c.property? group key).map .text
  attributes : ∀ key name,
    item.at? [group, "properties_attributes", name, key] = (c.attribute? group key name).map .text

theorem at?_single (group : String) (v : Value) (keys : List String) :
    (Value.object [(group, v)]).at? (group :: keys) = v.at? keys := by
  rw [Value.at?, Value.member?, SortedMap.lookupEntry, if_pos rfl]
  rfl

theorem isEntryOf_groupEntry {c : Configuration} {group : String} {properties : PropertyMap}
    (h : c.properties.get? group = some properties) :
    IsEntryOf (.object [(group, (c.groupEntry group properties).toValue)]) c group := by
  obtain ⟨hproperties, hattributes⟩ := groupEntry_tells h
  have hrows : (c.groupEntry group properties).attributes.AllValues (· ≠ ∅) :=
    GroupEntry.allValues_transpose _
  generalize c.groupEntry group properties = e at hproperties hattributes hrows
  constructor
  case single =>
    exact ⟨e.members, rfl, e.keys_members_sublist⟩
  case no_properties =>
    rw [at?_single, e.at?_sections.1, OrderedMap.eq_empty_iff]
    simp only [hproperties]
  case no_attributes =>
    rw [at?_single, e.at?_sections.2, OrderedMap.eq_empty_iff_cell? hrows, forall_comm]
    simp only [← hattributes]
    rfl
  case properties =>
    intro key
    rw [at?_single, e.at?_properties, hproperties]
  case attributes =>
    intro key name
    rw [at?_single, e.at?_attributes, hattributes]

/-- Whether a configuration has everything that another one has, and nothing else. -/
structure Restores (c' c : Configuration) : Prop extends IsCopyOf c' c where
  properties : ∀ group key, c'.property? group key = c.property? group key
  attributes : ∀ group key name, c'.attribute? group key name = c.attribute? group key name

theorem IsCopyOf.restores {c' c : Configuration} (h : c'.IsCopyOf c) : c'.Restores c :=
  ⟨h, h.property?, h.attribute?⟩

/-- Whether a configuration is represented in such a way that its groups tell what there is in it,
and that no attribute is lost when they are written. -/
structure IsSound (c : Configuration) : Prop where
  grounded : c.Grounded
  isEmpty_iff : c.isEmpty = true ↔ c.groups = []
  listed : ∀ group, (∃ key, c.property? group key ≠ none) ∨
    (∃ key name, c.attribute? group key name ≠ none) → group ∈ c.groups
  written : ∀ group key name value, c.attribute? group key name = some value →
    ∃ items, c.toValue = .array items ∧ ∃ item ∈ items,
      item.at? [group, "properties_attributes", name, key] = some (.text value)

theorem isEntryOf_of_mem {c : Configuration} {entry : String × GroupEntry}
    (h : entry ∈ c.toEntries) : IsEntryOf (.object [(entry.1, entry.2.toValue)]) c entry.1 := by
  obtain ⟨properties, hproperties, heq⟩ := exists_of_mem_toEntries h
  rw [heq]
  exact isEntryOf_groupEntry hproperties

theorem Grounded.mem_groups {c : Configuration} (h : c.Grounded) {group key name : String}
    (hattribute : c.attribute? group key name ≠ none) : group ∈ c.groups := by
  apply h.group
  by_contra hgroup
  rw [attribute?, OrderedMap.get?_eq_none_iff.mpr hgroup] at hattribute
  exact hattribute rfl

theorem Grounded.eq_empty {c : Configuration} (h : c.Grounded) (hgroups : c.groups = []) :
    c = ∅ := by
  have hattributes : c.attributes.keys = [] := by
    rw [List.eq_nil_iff_forall_not_mem]
    intro group hgroup
    have hmem : group ∈ c.groups := h.group group hgroup
    rw [hgroups] at hmem
    nomatch hmem
  rw [Configuration.mk.injEq]
  exact ⟨OrderedMap.ext_entries (List.map_eq_nil_iff.mp hgroups),
    OrderedMap.ext_entries (List.map_eq_nil_iff.mp hattributes)⟩

theorem Grounded.isSound {c : Configuration} (h : c.Grounded) : c.IsSound where
  grounded := h
  isEmpty_iff := by
    rw [isEmpty, Bool.and_eq_true, OrderedMap.isEmpty_eq_true_iff, OrderedMap.isEmpty_eq_true_iff]
    constructor
    · rintro ⟨hproperties, -⟩
      rw [groups, hproperties]
      rfl
    · intro hgroups
      rw [h.eq_empty hgroups]
      exact ⟨rfl, rfl⟩
  listed := by
    rintro group (⟨key, hproperty⟩ | ⟨key, name, hattribute⟩)
    · by_contra hgroup
      rw [property?, OrderedMap.get?_eq_none_iff.mpr hgroup] at hproperty
      exact hproperty rfl
    · exact h.mem_groups hattribute
  written := by
    intro group key name value hvalue
    have hattribute : c.attribute? group key name ≠ none := by
      rw [hvalue]
      exact Option.some_ne_none value
    have hgroup : group ∈ c.groups := h.mem_groups hattribute
    rw [keys_toEntries] at hgroup
    obtain ⟨entry, hentry, rfl⟩ := List.mem_map.mp hgroup
    refine ⟨_, c.toValue_eq, _, List.mem_map.mpr ⟨entry, hentry, rfl⟩, ?_⟩
    rw [(isEntryOf_of_mem hentry).attributes, hvalue]
    rfl

theorem built_of_ofValue {v : Value} {c : Configuration} (h : decoder.ofValue v = .ok c) :
    Built c := by
  obtain ⟨entries, -, rfl⟩ := Result.map_eq_ok h
  exact .ofEntries entries

theorem built_of_read {depth : Nat} {bytes rest : Bytes} {c : Configuration}
    (h : decoder.read depth bytes = .ok (c, rest)) : Built c := by
  obtain ⟨entries, -, rfl⟩ := read_eq_ok_iff.mp h
  exact .ofEntries entries

/-- Configurations that are decoded, from a value or a text, and all that is built up from them by
the operations on configurations, are represented soundly. -/
theorem isSound_of_built :
    (∀ v c, decoder.ofValue v = .ok c → Built c) ∧
      (∀ depth bytes rest c, decoder.read depth bytes = .ok (c, rest) → Built c) ∧
      ∀ c, Built c → c.IsSound :=
  ⟨fun _ _ => built_of_ofValue, fun _ _ _ _ => built_of_read, fun _ h => h.grounded.isSound⟩

def sampleBuilt : Configuration :=
  ((addGroup ∅ "yarn-site").mergedWith
    ((setProperty ∅ "core-site" "a" "2").setAttribute "core-site" "a" "final" "true")).mergedWith
      (setAttribute ∅ "hdfs-site" "dfs.dir" "final" "8020")

theorem isSound_of_built_sample :
    decoder.read 3 (Utf8.encode "[\x7b\"yarn-site\":\x7b\x7d\x7d]") =
        .ok (addGroup ∅ "yarn-site", []) ∧
      decoder.ofValue (.array laterEntries) =
        .ok ((setProperty ∅ "core-site" "a" "2").setAttribute "core-site" "a" "final" "true") ∧
      Built sampleBuilt ∧ sampleBuilt.IsSound := by
  obtain ⟨hofValue, hread, hsound⟩ := isSound_of_built
  have htext : decoder.read 3 (Utf8.encode "[\x7b\"yarn-site\":\x7b\x7d\x7d]") =
      .ok (addGroup ∅ "yarn-site", []) := by
    decide +kernel
  have hvalue : decoder.ofValue (.array laterEntries) =
      .ok ((setProperty ∅ "core-site" "a" "2").setAttribute "core-site" "a" "final" "true") := by
    decide
  have hbuilt : Built sampleBuilt :=
    .mergedWith (.mergedWith (hread _ _ _ _ htext) (hofValue _ _ hvalue))
      (.setAttribute .empty _ _ _ _)
  exact ⟨htext, hvalue, hbuilt, hsound _ hbuilt⟩

/-- A configuration is read back from its text, straight and by way of a value; the text has one
object for each group, in the order of the groups. -/
theorem restores_of_built {c : Configuration} (hc : Built c) (layout : Layout) :
    (∃ c', decoder.parse (Utf8.encode (c.toValue.toText layout)) = .ok c' ∧ c'.Restores c) ∧
      (Json.parse (Utf8.encode (c.toValue.toText layout)) = .ok c.toValue.sorted ∧
        ∃ c', decoder.convert c.toValue.sorted = .ok c' ∧ c'.Restores c) ∧
      ∃ items, c.toValue = .array items ∧
        List.Forall₂ (fun group item => IsEntryOf item c group) c.groups items := by
  have hgrounded := hc.grounded
  refine ⟨?_, ⟨?_, ?_⟩, _, c.toValue_eq, ?_⟩
  · obtain ⟨c', hread, hcopy⟩ := reads_toValue hgrounded 122 layout 0
    exact ⟨c', Json.readWhole_toText hread, hcopy.restores⟩
  · obtain ⟨hwhole, hdepth⟩ := c.readable_toValue
    exact Json.parse_toText hwhole (Nat.le_trans hdepth (by decide)) layout
  · obtain ⟨c', hvalue, hcopy⟩ := ofValue_toValue_sorted hgrounded
    exact ⟨c', Decoder.convert_eq_ok_iff.mpr hvalue, hcopy.restores⟩
  · rw [keys_toEntries, List.forall₂_map_left_iff, List.forall₂_map_right_iff, List.forall₂_same]
    exact fun entry hentry => isEntryOf_of_mem hentry

theorem restores_of_built_sample :
    Built sampleBuilt ∧ ∃ c', decoder.parse (Utf8.encode sampleBuilt.toValue.pretty) = .ok c' ∧
      c'.Restores sampleBuilt := by
  have hbuilt : Built sampleBuilt :=
    .mergedWith (.mergedWith (.ofEntries [.insert ∅ "yarn-site" ⟨∅, ∅⟩])
      (.setAttribute (.setProperty .empty _ _ _) _ _ _ _)) (.setAttribute .empty _ _ _ _)
  exact ⟨hbuilt, (restores_of_built hbuilt .indented).1⟩

end Configuration

end ClusterBlueprint
