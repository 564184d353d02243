import ClusterBlueprint.Proofs.Blueprint.Wire
import ClusterBlueprint.Proofs.Configuration.Written

namespace ClusterBlueprint

open Json (Value)

namespace Json.Value

/-- Whether a value is an object, each of whose members has a key of its own from a list. -/
def HasOnly (keys : List String) (v : Value) : Prop :=
  ∃ members, v = .object members ∧ (members.map Prod.fst).Nodup ∧ ∀ m ∈ members, m.1 ∈ keys

theorem at?_singleton (members : List (String × Value)) (key : String) :
    (Value.object members).at? [key] = member? members key := by
  rw [at?]
  cases member? members key <;> rfl

section

variable {members : List (String × Value)} (hkeys : (members.map Prod.fst).Nodup)

include hkeys

theorem at?_sorted (key : String) :
    (Value.object members).sorted.at? [key] = (member? members key).map sorted := by
  rw [sorted_object, at?_singleton, member?_arrange_sortedMembers hkeys]

theorem hasOnly_sorted {keys : List String} (hknown : members.map Prod.fst ⊆ keys) :
    (Value.object members).sorted.HasOnly keys := by
  have hnodup := SortedMap.nodup_of_sorted (sorted_keys_arrange (sortedMembers members))
  refine ⟨_, sorted_object members, hnodup, fun m hm => hknown ?_⟩
  have hfound := member?_arrange_sortedMembers hkeys m.1
  rw [member?, SortedMap.lookupEntry_of_mem hnodup hm] at hfound
  obtain ⟨v, hv, -⟩ := Option.map_eq_some_iff.mp hfound.symm
  exact List.mem_map.mpr ⟨(m.1, v), SortedMap.mem_of_lookupEntry hv, rfl⟩

end

end Json.Value

theorem map_sorted_text (o : Option String) :
    (o.map Value.text).map Value.sorted = o.map .text := by
  cases o <;> rfl

/-- Whether a member that is left out for an empty list shows the items of a list. -/
def ListIsShown {α : Type} (shows : α → Value → Prop) (as : List α) (found : Option Value) : Prop :=
  match found with
  | none => as = []
  | some v => as ≠ [] ∧ ∃ items, v = .array items ∧ List.Forall₂ shows as items

theorem forall₂_sorted {α : Type} {shows : α → Value → Prop} {f : α → Value} {as : List α}
    (h : ∀ a ∈ as, shows a (f a).sorted) :
    List.Forall₂ shows as ((as.map f).map Value.sorted) := by
  rw [List.map_map, List.forall₂_map_right_iff, List.forall₂_same]
  exact h

theorem listIsShown_sorted {α : Type} {shows : α → Value → Prop} {f : α → Value} {as : List α}
    (h : ∀ a ∈ as, shows a (f a).sorted) :
    ListIsShown shows as
      ((if as.isEmpty then none else some (Value.array (as.map f))).map Value.sorted) := by
  cases as with
  | nil => exact rfl
  | cons a as => exact ⟨List.cons_ne_nil a as, _, Value.sorted_array _, forall₂_sorted h⟩

def Configuration.shown? (c : Configuration) : Option Value :=
  if c = ∅ then none else some c.toValue.sorted

theorem Configuration.shown?_eq (c : Configuration) :
    (if c.isEmpty then none else some c.toValue).map Value.sorted = c.shown? := by
  have hempty : c.isEmpty = true ↔ c = ∅ := by
    rw [isEmpty, Bool.and_eq_true, OrderedMap.isEmpty_eq_true_iff, OrderedMap.isEmpty_eq_true_iff]
    constructor
    · rintro ⟨hproperties, hattributes⟩
      obtain ⟨properties, attributes⟩ := c
      cases hproperties
      cases hattributes
      rfl
    · rintro rfl
      exact ⟨rfl, rfl⟩
  simp only [shown?, ← hempty]
  split <;> rfl

/-- An object of a string and of one that may be unset. -/
theorem shown_of_optionalText {key key' : String} (hne : key ≠ key') (s : String)
    (o : Option String) :
    (Value.object ((key, .text s) :: optionalText key' o)).sorted.HasOnly [key, key'] ∧
      (Value.object ((key, .text s) :: optionalText key' o)).sorted.at? [key] = some (.text s) ∧
      (Value.object ((key, .text s) :: optionalText key' o)).sorted.at? [key'] = o.map .text := by
  have hsub : (((key, Value.text s) :: optionalText key' o).map Prod.fst).Sublist [key, key'] :=
    (keys_optionalText_sublist key' o).cons_cons key
  have hnodup := hsub.nodup (by simp [hne])
  refine ⟨Value.hasOnly_sorted hnodup hsub.subset, ?_, ?_⟩
  · rw [Value.at?_sorted hnodup, Value.member?_cons, if_pos rfl]
    rfl
  · rw [Value.at?_sorted hnodup, Value.member?_cons, if_neg hne, member?_optionalText, if_pos rfl,
      map_sorted_text]

structure Component.IsShownBy (c : Component) (v : Value) : Prop where
  members : v.HasOnly ["name", "provision_action"]
  name : v.at? ["name"] = some (.text c.name)
  action : v.at? ["provision_action"] = c.action.map fun a => .text a.name

theorem Component.isShownBy_sorted (c : Component) : c.IsShownBy c.toValue.sorted := by
  obtain ⟨name, action⟩ := c
  have hvalue : toValue ⟨name, action⟩ = .object (("name", .text name) ::
      optionalText "provision_action" (action.map ProvisionAction.name)) := by
    cases action <;> rfl
  have hne : "name" ≠ "provision_action" := by decide
  obtain ⟨hmembers, hname, haction⟩ :=
    shown_of_optionalText hne name (action.map ProvisionAction.name)
  rw [hvalue]
  exact ⟨hmembers, hname, haction.trans (Option.map_map _ _ _)⟩

structure Security.IsShownBy (s : Security) (v : Value) : Prop where
  members : v.HasOnly ["type", "security_descriptor_reference"]
  type : v.at? ["type"] = some (.text s.type.name)
  descriptorReference : v.at? ["security_descriptor_reference"] = s.descriptorReference.map .text

theorem Security.isShownBy_sorted (s : Security) : s.IsShownBy s.toValue.sorted := by
  have hne : "type" ≠ "security_descriptor_reference" := by decide
  obtain ⟨hmembers, htype, hreference⟩ :=
    shown_of_optionalText hne s.type.name s.descriptorReference
  exact ⟨hmembers, htype, hreference⟩

namespace HostGroup

structure IsShownBy (g : HostGroup) (v : Value) : Prop where
  members : v.HasOnly ["name", "kind", "cardinality", "components", "configurations"]
  name : v.at? ["name"] = some (.text g.name)
  kind : v.at? ["kind"] = g.kind.map .text
  cardinality : v.at? ["cardinality"] = g.cardinality.map .text
  components : ListIsShown Component.IsShownBy g.components (v.at? ["components"])
  configuration : v.at? ["configurations"] = g.configuration.shown?

theorem isShownBy_sorted (g : HostGroup) : g.IsShownBy g.toValue.sorted := by
  obtain ⟨hname, hkind, hcardinality, hcomponents, hconfiguration⟩ := g.member?_members
  rw [toValue_eq]
  constructor
  case members => exact Value.hasOnly_sorted g.nodup_keys_members g.keys_members_sublist.subset
  case name =>
    rw [Value.at?_sorted g.nodup_keys_members, hname]
    rfl
  case kind => rw [Value.at?_sorted g.nodup_keys_members, hkind, map_sorted_text]
  case cardinality => rw [Value.at?_sorted g.nodup_keys_members, hcardinality, map_sorted_text]
  case components =>
    rw [Value.at?_sorted g.nodup_keys_members, hcomponents]
    exact listIsShown_sorted fun c _ => c.isShownBy_sorted
  case configuration =>
    rw [Value.at?_sorted g.nodup_keys_members, hconfiguration, Configuration.shown?_eq]

end HostGroup

namespace Blueprint

/-- Whether a value is the object of an entry of the settings: it has the members of the entry, with
the same values. -/
def ShowsSettings (entry : SettingsEntry) (v : Value) : Prop :=
  ∃ members, v = .object members ∧ (members.map Prod.fst).Pairwise (· < ·) ∧
    ∀ key, Value.member? members key = entry.get? key

structure IsShownBy (b : Blueprint) (v : Value) : Prop where
  members : v.HasOnly
    ["blueprint_name", "stack_ids", "host_groups", "configurations", "settings", "security"]
  name : v.at? ["blueprint_name"] = some (.text b.name)
  stackIds : v.at? ["stack_ids"] =
    some (.array (b.stackIds.values.map fun id => .text id.display))
  hostGroups : ∃ items, v.at? ["host_groups"] = some (.array items) ∧
    List.Forall₂ HostGroup.IsShownBy b.hostGroups items
  configuration : v.at? ["configurations"] = b.configuration.shown?
  settings : ListIsShown ShowsSettings b.settings (v.at? ["settings"])
  security : ∃ item, v.at? ["security"] = some item ∧ b.security.IsShownBy item

theorem showsSettings_sorted {entry : SettingsEntry}
    (hentry : ∀ m ∈ entry.entries, m.2.isSorted = true) :
    ShowsSettings entry (settingsValue entry).sorted := by
  refine ⟨_, Value.sorted_object entry.entries, Value.sorted_keys_arrange _, fun key => ?_⟩
  rw [Value.member?_arrange_sortedMembers entry.distinct, Json.Decoder.member?_eq_lookupEntry,
    ← OrderedMap.get?]
  cases hfound : entry.get? key with
  | none => rfl
  | some v =>
      have hv := hentry (key, v) (OrderedMap.get?_eq_some_iff.mp hfound)
      rw [Option.map_some, Value.sorted_of_isSorted hv]

theorem isShownBy_sorted {b : Blueprint}
    (hsettings : ∀ entry ∈ b.settings, ∀ m ∈ entry.entries, m.2.isSorted = true) :
    b.IsShownBy b.toValue.sorted := by
  obtain ⟨hname, hstackIds, hhostGroups, hconfiguration, hsettings', hsecurity⟩ := b.member?_members
  rw [toValue_eq]
  constructor
  case members => exact Value.hasOnly_sorted b.nodup_keys_members b.keys_members_sublist.subset
  case name =>
    rw [Value.at?_sorted b.nodup_keys_members, hname]
    rfl
  case stackIds =>
    rw [Value.at?_sorted b.nodup_keys_members, hstackIds, Option.map_some, Value.sorted_array,
      List.map_map]
    rfl
  case hostGroups =>
    rw [Value.at?_sorted b.nodup_keys_members, hhostGroups, Option.map_some, Value.sorted_array]
    exact ⟨_, rfl, forall₂_sorted fun g _ => g.isShownBy_sorted⟩
  case configuration =>
    rw [Value.at?_sorted b.nodup_keys_members, hconfiguration, Configuration.shown?_eq]
  case settings =>
    rw [Value.at?_sorted b.nodup_keys_members, hsettings']
    exact listIsShown_sorted fun entry hentry => showsSettings_sorted (hsettings entry hentry)
  case security =>
    rw [Value.at?_sorted b.nodup_keys_members, hsecurity]
    exact ⟨_, rfl, b.security.isShownBy_sorted⟩

end Blueprint

end ClusterBlueprint
