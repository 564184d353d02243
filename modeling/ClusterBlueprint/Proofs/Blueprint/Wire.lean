import ClusterBlueprint.Blueprint.Wire
import ClusterBlueprint.Proofs.Configuration.Wire
import ClusterBlueprint.Proofs.StackId

namespace ClusterBlueprint

open Json (Value Decoder)

theorem member?_optionalText (key key' : String) (value : Option String) :
    Value.member? (optionalText key value) key' = if key = key' then value.map .text else none := by
  cases value with
  | none => simp [optionalText, Value.member?, SortedMap.lookupEntry]
  | some s => simp [optionalText, Value.member?, SortedMap.lookupEntry]

theorem keys_optionalText_sublist (key : String) (value : Option String) :
    ((optionalText key value).map Prod.fst).Sublist [key] := by
  cases value with
  | none => exact List.nil_sublist _
  | some s => exact List.Sublist.refl _

/-- A value that is left out when it is unset is read back all the same. -/
theorem nullable_given {α : Type} {d : Decoder α} {f : α → Value} {o : Option α}
    (h : ∀ a, o = some a → d.ofValue (f a).sorted = .ok a ∧ (f a).sorted ≠ .null) :
    match o.map f with
    | some v => d.nullable.ofValue v.sorted = .ok o
    | none => some none = some o := by
  cases o with
  | none => rfl
  | some a =>
      obtain ⟨hread, hnull⟩ := h a rfl
      rw [Option.map_some]
      change d.nullable.ofValue (f a).sorted = _
      rw [Decoder.nullable_ofValue hnull, hread]
      rfl

theorem nullable_text_given (o : Option String) :
    match o.map Value.text with
    | some v => Decoder.text.nullable.ofValue v.sorted = .ok o
    | none => some none = some o :=
  nullable_given fun s _ => ⟨rfl, by simp [Value.sorted_text]⟩

theorem ProvisionAction.ofValue_toValue_sorted (a : ProvisionAction) :
    decoder.ofValue a.toValue.sorted = .ok a := by
  cases a <;> rfl

theorem SecurityType.ofValue_toValue_sorted (t : SecurityType) :
    decoder.ofValue t.toValue.sorted = .ok t := by
  cases t <;> rfl

theorem StackId.ofValue_toValue_sorted (id : StackId) :
    decoder.ofValue id.toValue.sorted = .ok id :=
  decoder_ofValue_toValue id

theorem Component.ofValue_toValue_sorted (c : Component) :
    decoder.ofValue c.toValue.sorted = .ok c := by
  obtain ⟨name, action⟩ := c
  refine Decoder.ofValue_record_sorted "Component" (by decide) ?_
    ⟨(name, action, ()), ⟨rfl, ?_, trivial⟩, rfl⟩
  · cases action <;> simp
  · have haction := nullable_given (d := ProvisionAction.decoder) (f := ProvisionAction.toValue)
      (o := action) fun a _ => ⟨ProvisionAction.ofValue_toValue_sorted a, by
        simp [ProvisionAction.toValue, Value.sorted_text]⟩
    cases action <;> exact haction

theorem Security.ofValue_toValue_sorted (s : Security) :
    decoder.ofValue s.toValue.sorted = .ok s := by
  obtain ⟨type, descriptorReference⟩ := s
  refine Decoder.ofValue_record_sorted "SecurityConfiguration" (by decide) ?_
    ⟨(type, descriptorReference, ()), ⟨SecurityType.ofValue_toValue_sorted type, ?_, trivial⟩, rfl⟩
  · cases descriptorReference <;> simp [optionalText]
  · have hreference := nullable_text_given descriptorReference
    cases descriptorReference <;> exact hreference

theorem configuration_given {c : Configuration} (hc : c.Grounded) :
    ∃ c', (match if c.isEmpty then none else some c.toValue with
      | some v => Configuration.decoder.ofValue v.sorted = .ok c'
      | none => some ∅ = some c') ∧ c'.IsCopyOf c := by
  cases hempty : c.isEmpty with
  | true =>
      rw [Configuration.isEmpty, Bool.and_eq_true, OrderedMap.isEmpty_eq_true_iff,
        OrderedMap.isEmpty_eq_true_iff] at hempty
      obtain ⟨properties, attributes⟩ := c
      obtain ⟨rfl, rfl⟩ := hempty
      exact ⟨∅, rfl, rfl, rfl⟩
  | false => exact Configuration.ofValue_toValue_sorted hc

theorem list_given {α β : Type} {d : Decoder β} {r : α → β → Prop} {f : α → Value} {as : List α}
    (h : ∀ a ∈ as, ∃ b, d.ofValue (f a).sorted = .ok b ∧ r a b) :
    ∃ bs, (match if as.isEmpty then none else some (Value.array (as.map f)) with
      | some v => d.list.ofValue v.sorted = .ok bs
      | none => some [] = some bs) ∧ List.Forall₂ r as bs := by
  cases as with
  | nil => exact ⟨[], rfl, .nil⟩
  | cons a as => exact Decoder.list_ofValue_sorted h

theorem readable_optionalText (depth : Nat) (key : String) (value : Option String) :
    ∀ m ∈ optionalText key value, m.2.Readable depth := by
  cases value with
  | none => exact List.forall_mem_nil _
  | some s => exact List.forall_mem_singleton.mpr (Value.readable_text depth s)

theorem Component.readable_toValue (c : Component) : c.toValue.Readable 1 := by
  refine Value.readable_object (List.forall_mem_cons.mpr ⟨Value.readable_text 0 c.name, ?_⟩)
  cases c.action with
  | none => exact List.forall_mem_nil _
  | some a => exact List.forall_mem_singleton.mpr (Value.readable_text 0 a.name)

theorem Security.readable_toValue (s : Security) : s.toValue.Readable 1 :=
  Value.readable_object (List.forall_mem_cons.mpr
    ⟨Value.readable_text 0 s.type.name, readable_optionalText 0 _ s.descriptorReference⟩)

namespace HostGroup

def members (g : HostGroup) : List (String × Value) :=
  ("name", .text g.name) :: optionalText "kind" g.kind ++
    optionalText "cardinality" g.cardinality ++
    Value.memberUnless g.components.isEmpty "components"
      (.array (g.components.map Component.toValue)) ++
    Value.memberUnless g.configuration.isEmpty "configurations" g.configuration.toValue

theorem toValue_eq (g : HostGroup) : g.toValue = .object g.members :=
  rfl

theorem keys_members_sublist (g : HostGroup) :
    (g.members.map Prod.fst).Sublist
      ["name", "kind", "cardinality", "components", "configurations"] := by
  simp only [members, List.map_append, List.map_cons, List.cons_append]
  refine .cons_cons "name" ?_
  exact (((keys_optionalText_sublist _ _).append (keys_optionalText_sublist _ _)).append
    (Value.keys_memberUnless_sublist _ _ _)).append (Value.keys_memberUnless_sublist _ _ _)

theorem nodup_keys_members (g : HostGroup) : (g.members.map Prod.fst).Nodup :=
  g.keys_members_sublist.nodup (by decide)

theorem member?_members (g : HostGroup) :
    Value.member? g.members "name" = some (.text g.name) ∧
      Value.member? g.members "kind" = g.kind.map .text ∧
      Value.member? g.members "cardinality" = g.cardinality.map .text ∧
      Value.member? g.members "components" =
        (if g.components.isEmpty then none
          else some (.array (g.components.map Component.toValue))) ∧
      Value.member? g.members "configurations" =
        if g.configuration.isEmpty then none else some g.configuration.toValue := by
  simp [members, Value.member?_append, Value.member?_cons, member?_optionalText,
    Value.member?_memberUnless]

/-- Whether a host group is another up to the order inside the groups of its configuration. -/
structure IsCopyOf (g' g : HostGroup) : Prop where
  same : Blueprint.sameHostGroup g' g = true
  configuration : g'.configuration.IsCopyOf g.configuration

/-- The record of a host group comes back up to the order inside the groups of its configuration.
-/
theorem ofValue_toValue_sorted {g : HostGroup} (hg : g.configuration.Grounded) :
    ∃ g', decoder.ofValue g.toValue.sorted = .ok g' ∧ g'.IsCopyOf g := by
  obtain ⟨configuration, hconfiguration, hcopy⟩ := configuration_given hg
  obtain ⟨components, hcomponents, hsame⟩ := list_given (r := (· = ·))
    fun (c : Component) (_ : c ∈ g.components) => ⟨c, Component.ofValue_toValue_sorted c, rfl⟩
  rw [List.forall₂_eq_eq_eq] at hsame
  subst hsame
  obtain ⟨hname, hkind, hcardinality, hcomponents', hconfiguration'⟩ := g.member?_members
  refine ⟨⟨g.name, g.kind, g.cardinality, g.components, configuration⟩, ?_, ?_, hcopy⟩
  · rw [toValue_eq]
    refine Decoder.ofValue_record_sorted "HostGroup" (by decide) g.nodup_keys_members
      ⟨(g.name, g.kind, g.cardinality, g.components, configuration, ()),
        ⟨?_, ?_, ?_, ?_, ?_, trivial⟩, rfl⟩
    · rw [hname]
      rfl
    · rw [hkind]
      exact nullable_text_given g.kind
    · rw [hcardinality]
      exact nullable_text_given g.cardinality
    · rw [hcomponents']
      exact hcomponents
    · rw [hconfiguration']
      exact hconfiguration
  · simp [Blueprint.sameHostGroup, hcopy.agrees]

theorem readable_toValue (g : HostGroup) : g.toValue.Readable 6 := by
  have hcomponents : ∀ v ∈ g.components.map Component.toValue, v.Readable 4 := by
    intro v hv
    obtain ⟨c, -, rfl⟩ := List.mem_map.mp hv
    exact c.readable_toValue.mono (by decide)
  rw [toValue_eq]
  apply Value.readable_object
  simp only [members, List.forall_mem_append, List.forall_mem_cons]
  exact ⟨⟨⟨⟨Value.readable_text 5 g.name, readable_optionalText 5 _ g.kind⟩,
    readable_optionalText 5 _ g.cardinality⟩,
    Value.readable_memberUnless (Value.readable_array hcomponents) _ _⟩,
    Value.readable_memberUnless g.configuration.readable_toValue _ _⟩

end HostGroup

namespace Blueprint

def members (b : Blueprint) : List (String × Value) :=
  ("blueprint_name", .text b.name) ::
    ("stack_ids", .array (b.stackIds.values.map StackId.toValue)) ::
    ("host_groups", .array (b.hostGroups.map HostGroup.toValue)) ::
    Value.memberUnless b.configuration.isEmpty "configurations" b.configuration.toValue ++
    Value.memberUnless b.settings.isEmpty "settings" (.array (b.settings.map settingsValue)) ++
    [("security", b.security.toValue)]

theorem toValue_eq (b : Blueprint) : b.toValue = .object b.members :=
  rfl

theorem keys_members_sublist (b : Blueprint) :
    (b.members.map Prod.fst).Sublist
      ["blueprint_name", "stack_ids", "host_groups", "configurations", "settings", "security"] := by
  simp only [members, List.map_append, List.map_cons, List.cons_append]
  refine .cons_cons _ (.cons_cons _ (.cons_cons _ ?_))
  exact ((Value.keys_memberUnless_sublist _ _ _).append
    (Value.keys_memberUnless_sublist _ _ _)).append (List.Sublist.refl ["security"])

theorem nodup_keys_members (b : Blueprint) : (b.members.map Prod.fst).Nodup :=
  b.keys_members_sublist.nodup (by decide)

theorem member?_members (b : Blueprint) :
    Value.member? b.members "blueprint_name" = some (.text b.name) ∧
      Value.member? b.members "stack_ids" = some (.array (b.stackIds.values.map StackId.toValue)) ∧
      Value.member? b.members "host_groups" = some (.array (b.hostGroups.map HostGroup.toValue)) ∧
      Value.member? b.members "configurations" =
        (if b.configuration.isEmpty then none else some b.configuration.toValue) ∧
      Value.member? b.members "settings" =
        (if b.settings.isEmpty then none else some (.array (b.settings.map settingsValue))) ∧
      Value.member? b.members "security" = some b.security.toValue := by
  simp [members, Value.member?_append, Value.member?_cons, Value.member?_nil,
    Value.member?_memberUnless]

/-- Whether all settings can be read back from a text: their numbers are whole, their objects are in
order, and they are not too deep. -/
def HasReadableSettings (b : Blueprint) : Prop :=
  ∀ entry ∈ b.settings, ∀ m ∈ entry.entries, m.2.isSorted = true ∧ m.2.Readable 124

/-- Whether the numbers in all settings are whole and their objects are in order, however deep they
are. -/
def HasWholeSettings (b : Blueprint) : Prop :=
  ∀ entry ∈ b.settings, ∀ m ∈ entry.entries, m.2.isSorted = true ∧ m.2.isWhole = true

theorem HasReadableSettings.hasWholeSettings {b : Blueprint} (h : b.HasReadableSettings) :
    b.HasWholeSettings :=
  fun entry hentry m hm => ⟨(h entry hentry m hm).1, (h entry hentry m hm).2.1⟩

theorem readable_toValue_of_settings {b : Blueprint} {depth : Nat} (hdepth : 124 ≤ depth)
    (hsettings : ∀ entry ∈ b.settings, ∀ m ∈ entry.entries, m.2.Readable depth) :
    b.toValue.Readable (depth + 3) := by
  have hids : ∀ v ∈ b.stackIds.values.map StackId.toValue, v.Readable (depth + 1) := by
    intro v hv
    obtain ⟨id, -, rfl⟩ := List.mem_map.mp hv
    exact Value.readable_text (depth + 1) id.display
  have hgroups : ∀ v ∈ b.hostGroups.map HostGroup.toValue, v.Readable (depth + 1) := by
    intro v hv
    obtain ⟨g, -, rfl⟩ := List.mem_map.mp hv
    exact g.readable_toValue.mono (by omega)
  have hentries : ∀ v ∈ b.settings.map settingsValue, v.Readable (depth + 1) := by
    intro v hv
    obtain ⟨entry, hentry, rfl⟩ := List.mem_map.mp hv
    exact Value.readable_object (hsettings entry hentry)
  rw [toValue_eq]
  apply Value.readable_object
  simp only [members, List.forall_mem_append, List.forall_mem_cons]
  refine ⟨⟨⟨Value.readable_text (depth + 2) b.name, Value.readable_array hids,
    Value.readable_array hgroups, ?_⟩, Value.readable_memberUnless (Value.readable_array hentries)
    _ _⟩, ?_, List.forall_mem_nil _⟩
  · exact Value.readable_memberUnless (b.configuration.readable_toValue.mono (by omega)) _ _
  · exact b.security.readable_toValue.mono (by omega)

theorem readable_toValue {b : Blueprint} (hsettings : b.HasReadableSettings) :
    b.toValue.Readable Json.greatestDepth :=
  readable_toValue_of_settings (Nat.le_refl 124) fun entry hentry m hm =>
    (hsettings entry hentry m hm).2

theorem isWhole_toValue {b : Blueprint} (hsettings : b.HasWholeSettings) :
    b.toValue.isWhole = true := by
  -- Some depth is enough for all settings, since there are only so many.
  let values := b.settings.flatMap fun entry => entry.entries
  refine (readable_toValue_of_settings (Nat.le_max_left 124 (Value.depthMembers values)) ?_).1
  intro entry hentry m hm
  refine ⟨(hsettings entry hentry m hm).2, Nat.le_trans ?_ (Nat.le_max_right _ _)⟩
  exact Value.depthMembers_le_iff.mp (Nat.le_refl _) m (List.mem_flatMap.mpr ⟨entry, hentry, hm⟩)

/-- Whether settings are others up to the order of their entries. -/
structure CopiesSettings (entry' entry : SettingsEntry) : Prop where
  same : sameSettings entry' entry = true
  related : entry'.Related (· = ·) entry

theorem settings_ofValue_sorted {entry : SettingsEntry}
    (hentry : ∀ m ∈ entry.entries, m.2.isSorted = true ∧ m.2.isWhole = true) :
    ∃ entry', (Decoder.orderedMap .value).ofValue (settingsValue entry).sorted = .ok entry' ∧
      CopiesSettings entry' entry := by
  have hvalues : ∀ key v, entry.get? key = some v →
      ∃ w, Decoder.value.ofValue (id v).sorted = .ok w ∧ v = w ∧ v.isWhole = true := by
    intro key v hv
    obtain ⟨hsorted, hwhole⟩ := hentry (key, v) (OrderedMap.get?_eq_some_iff.mp hv)
    exact ⟨v, congrArg Except.ok (Value.sorted_of_isSorted hsorted), rfl, hwhole⟩
  obtain ⟨entry', hread, hrelated⟩ := Decoder.orderedMap_ofValue_sorted hvalues
  refine ⟨entry', ?_, ?_, hrelated.symm.imp fun _ _ h => h.1.symm⟩
  · rw [settingsValue]
    simpa using hread
  · rw [sameSettings, OrderedMap.agrees_iff]
    apply hrelated.symm.imp
    rintro w v ⟨rfl, hwhole⟩
    exact Value.sameValue_self hwhole

theorem pairwiseAgree_iff {α : Type} {same : α → α → Bool} {as bs : List α} :
    pairwiseAgree same as bs = true ↔ List.Forall₂ (fun a b => same a b = true) as bs := by
  induction as generalizing bs with
  | nil => cases bs <;> simp [pairwiseAgree]
  | cons a as ih => cases bs <;> simp [pairwiseAgree, ih]

/-- What may be read back of a blueprint: the stack ids under their written forms, and everything
else up to the order inside the groups of configurations and inside the entries of settings. -/
structure ReadBack (b b' : Blueprint) : Prop where
  name : b'.name = b.name
  stackIds : b'.stackIds = stackMap b.stackIds.values
  hostGroups : List.Forall₂ HostGroup.IsCopyOf b'.hostGroups b.hostGroups
  configuration : b'.configuration.IsCopyOf b.configuration
  settings : List.Forall₂ CopiesSettings b'.settings b.settings
  security : b'.security = b.security

def otherMembers (b : Blueprint) : List (String × Value) :=
  SortedMap.eraseEntry "host_groups" (Value.arrange (Value.sortedMembers b.members))

theorem member?_eraseEntry {members : List (String × Value)} (hkeys : (members.map Prod.fst).Nodup)
    (key key' : String) :
    Value.member? (SortedMap.eraseEntry key members) key' =
      if key' = key then none else Value.member? members key' :=
  SortedMap.lookupEntry_eraseEntry key key' hkeys

theorem member?_otherMembers (b : Blueprint) (key : String) :
    Value.member? b.otherMembers key =
      (Value.member? (SortedMap.eraseEntry "host_groups" b.members) key).map Value.sorted := by
  have hsorted := SortedMap.nodup_of_sorted
    (Value.sorted_keys_arrange (Value.sortedMembers b.members))
  rw [otherMembers, member?_eraseEntry hsorted, member?_eraseEntry b.nodup_keys_members,
    Value.member?_arrange_sortedMembers b.nodup_keys_members]
  by_cases hkey : key = "host_groups"
  · rw [if_pos hkey, if_pos hkey, Option.map_none]
  · rw [if_neg hkey, if_neg hkey]

theorem ofValue_otherMembers {b : Blueprint} (hconfiguration : b.configuration.Grounded)
    (hsettings : b.HasWholeSettings) :
    ∃ b', decoder.ofValue (.object b.otherMembers) = .ok b' ∧
      ReadBack { b with hostGroups := [] } b' := by
  obtain ⟨configuration, hconf, hcopy⟩ := configuration_given hconfiguration
  obtain ⟨settings, hset, hsame⟩ := list_given fun (entry : SettingsEntry) hentry =>
    settings_ofValue_sorted (hsettings entry hentry)
  obtain ⟨ids, hids, hsameIds⟩ := Decoder.list_ofValue_sorted (r := (· = ·))
    fun (id : StackId) (_ : id ∈ b.stackIds.values) => ⟨id, StackId.ofValue_toValue_sorted id, rfl⟩
  rw [List.forall₂_eq_eq_eq] at hsameIds
  subst hsameIds
  obtain ⟨hname, hstackIds, -, hconf', hset', hsecurity⟩ := b.member?_members
  have hnodup : (b.otherMembers.map Prod.fst).Nodup :=
    (SortedMap.nodup_of_sorted (Value.sorted_keys_arrange _)).sublist
      ((SortedMap.eraseEntry_sublist _ _).map Prod.fst)
  refine ⟨⟨b.name, stackMap b.stackIds.values, [], configuration, settings, b.security⟩, ?_, ?_⟩
  · have hother (key : String) (hkey : key ≠ "host_groups") :
        Value.member? (SortedMap.eraseEntry "host_groups" b.members) key =
          Value.member? b.members key :=
      (member?_eraseEntry b.nodup_keys_members _ key).trans (if_neg hkey)
    have hgroups : Value.member? (SortedMap.eraseEntry "host_groups" b.members) "host_groups" =
        none := (member?_eraseEntry b.nodup_keys_members _ _).trans (if_pos rfl)
    refine Decoder.ofValue_record_of_members "Blueprint" (by decide) hnodup b.member?_otherMembers
      ⟨(b.name, stackMap b.stackIds.values, [], configuration, settings, b.security, ()),
        ⟨?_, ?_, ?_, ?_, ?_, ?_, trivial⟩, rfl⟩
    · rw [hother _ (by decide), hname]
      rfl
    · rw [hother _ (by decide), hstackIds]
      exact congrArg (Except.map stackMap) hids
    · rw [hgroups]
    · rw [hother _ (by decide), hconf']
      exact hconf
    · rw [hother _ (by decide), hset']
      exact hset
    · rw [hother _ (by decide), hsecurity]
      exact b.security.ofValue_toValue_sorted
  · exact ⟨rfl, rfl, .nil, hcopy, hsame.flip, rfl⟩

end Blueprint

end ClusterBlueprint
