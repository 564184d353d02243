import ClusterBlueprint.Proofs.Configuration.Basic
import ClusterBlueprint.Proofs.Json.Record

namespace ClusterBlueprint

open Json (Value Decoder)

namespace GroupEntry

def attribute? (e : GroupEntry) (key name : String) : Option String :=
  e.attributes.cell? name key

def attributesValue (attributes : OrderedMap String (OrderedMap String String)) : Value :=
  .object (attributes.entries.map fun (name, byKey) => (name, textMembers byKey))

def members (e : GroupEntry) : List (String × Value) :=
  Value.memberUnless e.properties.isEmpty "properties" (textMembers e.properties) ++
    Value.memberUnless e.attributes.isEmpty "properties_attributes" (attributesValue e.attributes)

theorem toValue_eq (e : GroupEntry) : e.toValue = .object e.members :=
  rfl

theorem keys_members_sublist (e : GroupEntry) :
    (e.members.map Prod.fst).Sublist ["properties", "properties_attributes"] := by
  rw [members, List.map_append]
  exact (Value.keys_memberUnless_sublist _ _ _).append (Value.keys_memberUnless_sublist _ _ _)

theorem nodup_keys_members (e : GroupEntry) : (e.members.map Prod.fst).Nodup :=
  e.keys_members_sublist.nodup (by decide)

theorem member?_members (e : GroupEntry) :
    Value.member? e.members "properties" =
        (if e.properties.isEmpty then none else some (textMembers e.properties)) ∧
      Value.member? e.members "properties_attributes" =
        if e.attributes.isEmpty then none else some (attributesValue e.attributes) := by
  simp [members, Value.member?_append, Value.member?_memberUnless]

theorem textMembers_ofValue_sorted (m : OrderedMap String String) :
    ∃ n, (Decoder.orderedMap .property).ofValue (textMembers m).sorted = .ok n ∧
      m.Related (· = ·) n :=
  Decoder.orderedMap_ofValue_sorted fun _ a _ => ⟨a, rfl, rfl⟩

theorem readable_textMembers (m : OrderedMap String String) : (textMembers m).Readable 1 := by
  apply Value.readable_object
  intro member hmember
  obtain ⟨entry, -, rfl⟩ := List.mem_map.mp hmember
  exact Value.readable_text 0 entry.2

theorem cell?_transpose (attributes : OrderedMap String (OrderedMap String String))
    (outer inner : String) :
    (transpose attributes).cell? inner outer = attributes.cell? outer inner := by
  have hrow : ∀ (m : OrderedMap String (OrderedMap String String)) outer'
      (byInner : OrderedMap String String) outer,
      OrderedMap.cell? (byInner.entries.foldl (fun m entry =>
        m.alter entry.1 fun old => (old.getD ∅).insert outer' entry.2) m) inner outer =
        (if outer = outer' then byInner.get? inner else none).or (m.cell? inner outer) := by
    intro m outer' byInner outer
    exact OrderedMap.cell?_foldl_insert byInner.distinct m outer' inner outer
  refine (OrderedMap.view_foldl _ (fun m outer => OrderedMap.cell? m inner outer)
    (fun byInner => OrderedMap.get? byInner inner) hrow attributes.distinct ∅ outer).trans ?_
  exact Option.or_none

/-- A key comes out of the exchange only with a value. -/
theorem allValues_transpose (attributes : OrderedMap String (OrderedMap String String)) :
    (transpose attributes).AllValues (· ≠ ∅) := by
  let Filled (m : OrderedMap String (OrderedMap String String)) : Prop := m.AllValues (· ≠ ∅)
  apply List.foldlRecOn (motive := Filled) attributes.entries _ (OrderedMap.allValues_empty _)
  rintro m hm ⟨outer, inner⟩ -
  apply List.foldlRecOn (motive := Filled) inner.entries _ hm
  rintro m hm ⟨key, value⟩ -
  exact hm.alter key fun _ _ => OrderedMap.alter_ne_empty _ _ _

theorem readable_attributesValue (attributes : OrderedMap String (OrderedMap String String)) :
    (attributesValue attributes).Readable 2 := by
  apply Value.readable_object
  intro member hmember
  obtain ⟨entry, -, rfl⟩ := List.mem_map.mp hmember
  exact readable_textMembers entry.2

theorem readable_toValue (e : GroupEntry) : e.toValue.Readable 3 := by
  rw [toValue_eq]
  apply Value.readable_object
  rw [members, List.forall_mem_append]
  exact ⟨Value.readable_memberUnless ((readable_textMembers e.properties).mono (by decide)) _ _,
    Value.readable_memberUnless (readable_attributesValue e.attributes) _ _⟩

/-- A section that is left out when it is empty is read back all the same. -/
theorem section_given {α β : Type} {d : Decoder (OrderedMap String β)} {m : OrderedMap String α}
    {v : Value} {r : α → β → Prop} (h : ∃ n, d.ofValue v.sorted = .ok n ∧ m.Related r n) :
    ∃ n, (match if m.isEmpty then none else some v with
      | some v => d.ofValue v.sorted = .ok n
      | none => some ∅ = some n) ∧ m.Related r n := by
  cases hempty : m.isEmpty with
  | true =>
      rw [OrderedMap.isEmpty_eq_true_iff] at hempty
      subst hempty
      exact ⟨∅, rfl, fun _ => .none⟩
  | false => exact h

theorem ofValue_toValue_sorted (e : GroupEntry) :
    ∃ e', decoder.ofValue e.toValue.sorted = .ok e' ∧ e.properties.Related (· = ·) e'.properties ∧
      ∀ key name, e.attribute? key name = e'.attribute? key name := by
  obtain ⟨properties, hproperties, hsame⟩ := section_given (textMembers_ofValue_sorted e.properties)
  obtain ⟨attributes, hattributes, hrelated⟩ := section_given
    (Decoder.orderedMap_ofValue_sorted fun name byKey (_ : e.attributes.get? name = some byKey) =>
      textMembers_ofValue_sorted byKey)
  obtain ⟨hproperties', hattributes'⟩ := e.member?_members
  refine ⟨⟨properties, attributes⟩, ?_, hsame, fun key name => hrelated.cell? name key⟩
  rw [toValue_eq]
  refine Decoder.ofValue_record_sorted "ConfigTypeEntry" (by decide) e.nodup_keys_members
    ⟨(properties, attributes, ()), ⟨?_, ?_, trivial⟩, rfl⟩
  · rw [hproperties']
    exact hproperties
  · rw [hattributes']
    exact hattributes

end GroupEntry

namespace Configuration

open OrderedMap (view_foldl)

theorem property?_setProperty (c : Configuration) (group group' key key' value : String) :
    (c.setProperty group key value).property? group' key' =
      if group' = group ∧ key' = key then some value else c.property? group' key' :=
  OrderedMap.cell?_alter_insert c.properties group group' key key' value

theorem property?_addGroup (c : Configuration) (group group' key : String) :
    (c.addGroup group).property? group' key = c.property? group' key := by
  simp only [property?, addGroup, OrderedMap.get?_alter]
  by_cases hgroup : group' = group
  · subst hgroup
    rw [if_pos rfl]
    cases c.properties.get? group' <;> rfl
  · rw [if_neg hgroup]

theorem attribute?_putAttribute (c : Configuration)
    (group group' key key' name name' value : String) :
    (c.putAttribute group key name value).attribute? group' key' name' =
      if group' = group ∧ key' = key ∧ name' = name then some value
      else c.attribute? group' key' name' := by
  simp only [attribute?, putAttribute, OrderedMap.get?_alter]
  by_cases hgroup : group' = group
  · subst hgroup
    simp only [if_true, Option.bind_some, true_and]
    apply Eq.trans (OrderedMap.cell?_alter_insert _ key key' name name' value)
    cases c.attributes.get? group' <;> rfl
  · simp only [hgroup, if_false, false_and]

theorem property?_foldl_setProperty {entries : List (String × String)}
    (hkeys : (entries.map Prod.fst).Nodup) (c : Configuration) (group group' key : String) :
    (entries.foldl (fun c (key, value) => c.setProperty group key value) c).property? group' key =
      (if group' = group then OrderedMap.lookupEntry key entries else none).or
        (c.property? group' key) := by
  have hstep : ∀ (c : Configuration) k value key,
      (c.setProperty group k value).property? group' key =
        (if key = k then (if group' = group then some value else none) else none).or
          (c.property? group' key) := by
    intro c k value key
    rw [property?_setProperty]
    by_cases hgroup : group' = group <;> by_cases hk : key = k <;> simp [hgroup, hk]
  refine (view_foldl _ (fun c key => property? c group' key)
    (fun value => if group' = group then some value else none) hstep hkeys c key).trans ?_
  by_cases hgroup : group' = group
  · simp only [hgroup, if_true, Option.bind_fun_some]
  · simp only [hgroup, if_false, Option.bind_fun_none]

theorem attribute?_foldl_putAttribute {entries : List (String × String)}
    (hkeys : (entries.map Prod.fst).Nodup) (c : Configuration)
    (group group' key name name' : String) :
    (entries.foldl (fun c (key, value) => c.putAttribute group key name value) c).attribute? group'
        key name' =
      (if group' = group ∧ name' = name then OrderedMap.lookupEntry key entries else none).or
        (c.attribute? group' key name') := by
  have hstep : ∀ (c : Configuration) k value key,
      (c.putAttribute group k name value).attribute? group' key name' =
        (if key = k then (if group' = group ∧ name' = name then some value else none) else none).or
          (c.attribute? group' key name') := by
    intro c k value key
    rw [attribute?_putAttribute]
    by_cases hgroup : group' = group <;> by_cases hk : key = k <;> by_cases hname : name' = name <;>
      simp [hgroup, hk, hname]
  refine (view_foldl _ (fun c key => attribute? c group' key name')
    (fun value => if group' = group ∧ name' = name then some value else none) hstep hkeys c
    key).trans ?_
  by_cases hplace : group' = group ∧ name' = name
  · simp only [hplace, and_self, if_true, Option.bind_fun_some]
  · simp only [hplace, if_false, Option.bind_fun_none]

theorem properties_foldl_putAttribute (group : String)
    (entries : List (String × OrderedMap String String)) (c : Configuration) :
    (entries.foldl (fun c (name, byKey) => (OrderedMap.entries byKey).foldl
      (fun c (key, value) => c.putAttribute group key name value) c) c).properties =
        c.properties := by
  let Same (c' : Configuration) : Prop := c'.properties = c.properties
  apply List.foldlRecOn (motive := Same) entries _ rfl
  intro c' hc' entry _
  exact List.foldlRecOn (motive := Same) entry.2.entries _ hc' fun _ hc' _ _ => hc'

theorem attribute?_foldl_setProperty (group : String) (entries : List (String × String))
    (c : Configuration) (group' key name : String) :
    (entries.foldl (fun c (key, value) => c.setProperty group key value) c).attribute? group' key
      name = c.attribute? group' key name := by
  let Same (c' : Configuration) : Prop :=
    c'.attribute? group' key name = c.attribute? group' key name
  exact List.foldlRecOn (motive := Same) entries _ rfl fun _ hc' _ _ => hc'

theorem property?_addEntry (c : Configuration) (group group' key : String) (e : GroupEntry) :
    (c.addEntry group e).property? group' key =
      (if group' = group then e.properties.get? key else none).or (c.property? group' key) := by
  rw [property?, addEntry, properties_foldl_putAttribute, ← property?,
    property?_foldl_setProperty e.properties.distinct, property?_addGroup]
  rfl

theorem attribute?_addEntry (c : Configuration) (group group' key name : String) (e : GroupEntry) :
    (c.addEntry group e).attribute? group' key name =
      (if group' = group then e.attribute? key name else none).or
        (c.attribute? group' key name) := by
  have hstep : ∀ (c : Configuration) name' (byKey : OrderedMap String String) name,
      (byKey.entries.foldl (fun c (key, value) => c.putAttribute group key name' value)
        c).attribute? group' key name =
        (if name = name' then (if group' = group then byKey.get? key else none) else none).or
          (c.attribute? group' key name) := by
    intro c name' byKey name
    rw [attribute?_foldl_putAttribute byKey.distinct]
    by_cases hgroup : group' = group <;> by_cases hname : name = name' <;>
      simp [hgroup, hname, OrderedMap.get?]
  refine (view_foldl _ (fun c name => attribute? c group' key name)
    (fun byKey => if group' = group then OrderedMap.get? byKey key else none) hstep
    e.attributes.distinct _ name).trans ?_
  have hgroup : (c.addGroup group).attribute? group' key name = c.attribute? group' key name := rfl
  rw [attribute?_foldl_setProperty, hgroup]
  by_cases hgroup : group' = group
  · simp only [hgroup, if_true]
    rfl
  · simp only [hgroup, if_false, Option.bind_fun_none]

theorem groups_addEntry (c : Configuration) (group : String) (e : GroupEntry) :
    (c.addEntry group e).groups = if group ∈ c.groups then c.groups else c.groups ++ [group] := by
  have hkeys : (c.addGroup group).groups = if group ∈ c.groups then c.groups
      else c.groups ++ [group] := OrderedMap.keys_alter c.properties group _
  have hgroup : group ∈ (c.addGroup group).groups := OrderedMap.mem_keys_alter.mpr (.inl rfl)
  let Same (c' : Configuration) : Prop := c'.groups = (c.addGroup group).groups
  rw [groups, addEntry, properties_foldl_putAttribute, ← hkeys]
  apply List.foldlRecOn (motive := Same) e.properties.entries _ rfl
  rintro c' hc' ⟨key, value⟩ -
  apply Eq.trans (OrderedMap.keys_alter c'.properties group _)
  rw [← groups, hc', if_pos hgroup]

/-- New groups come to stand after the old ones, in the order of their entries. -/
theorem groups_foldl_addEntry {entries : List (String × GroupEntry)} {c : Configuration}
    (hkeys : (c.groups ++ entries.map Prod.fst).Nodup) :
    (entries.foldl (fun c (group, e) => addEntry c group e) c).groups =
      c.groups ++ entries.map Prod.fst := by
  induction entries generalizing c with
  | nil => rw [List.foldl_nil, List.map_nil, List.append_nil]
  | cons entry rest ih =>
      rw [List.map_cons] at hkeys ⊢
      have hnew : entry.1 ∉ c.groups := fun hmem =>
        (List.nodup_append.mp hkeys).2.2 entry.1 hmem entry.1 (by simp) rfl
      have hgroups : (c.addEntry entry.1 entry.2).groups = c.groups ++ [entry.1] := by
        rw [groups_addEntry, if_neg hnew]
      rw [List.foldl_cons, ih, hgroups, List.append_assoc]
      · rfl
      · rwa [hgroups, List.append_assoc]

/-- What a configuration says about the groups of different entries. -/
theorem lookups_foldl_addEntry {entries : List (String × GroupEntry)}
    (hkeys : (entries.map Prod.fst).Nodup) (group : String) :
    (∀ key, (entries.foldl (fun c (group, e) => addEntry c group e) ∅).property? group key =
        (OrderedMap.lookupEntry group entries).bind fun e => e.properties.get? key) ∧
      ∀ key name, (entries.foldl (fun c (group, e) => addEntry c group e) ∅).attribute? group key
        name = (OrderedMap.lookupEntry group entries).bind fun e => e.attribute? key name := by
  constructor
  · intro key
    refine (view_foldl _ (fun c group => property? c group key)
      (fun e => OrderedMap.get? (GroupEntry.properties e) key) ?_ hkeys ∅ group).trans
        Option.or_none
    intro c group e group'
    exact property?_addEntry c group group' key e
  · intro key name
    refine (view_foldl _ (fun c group => attribute? c group key name)
      (fun e => GroupEntry.attribute? e key name) ?_ hkeys ∅ group).trans Option.or_none
    intro c group e group'
    exact attribute?_addEntry c group group' key name e

/-- Whether an entry holds what a configuration says about a group. -/
def Tells (c : Configuration) (group : String) (e : GroupEntry) : Prop :=
  (∀ key, e.properties.get? key = c.property? group key) ∧
    ∀ key name, e.attribute? key name = c.attribute? group key name

theorem groupEntry_tells {c : Configuration} {group : String} {properties : PropertyMap}
    (h : c.properties.get? group = some properties) :
    c.Tells group (c.groupEntry group properties) := by
  constructor
  · intro key
    rw [property?, h]
    rfl
  · intro key name
    apply Eq.trans (GroupEntry.cell?_transpose _ key name)
    rw [attribute?, OrderedMap.cell?]
    cases c.attributes.get? group <;> rfl

theorem group_ofValue_sorted {c : Configuration} {group : String} {properties : PropertyMap}
    (h : c.properties.get? group = some properties) :
    ∃ e, (Decoder.orderedMap GroupEntry.decoder).ofValue
        (Value.object [(group, (c.groupEntry group properties).toValue)]).sorted =
          .ok (OrderedMap.insert ∅ group e) ∧ c.Tells group e := by
  obtain ⟨e, he, hproperties, hattributes⟩ :=
    GroupEntry.ofValue_toValue_sorted (c.groupEntry group properties)
  have htells := groupEntry_tells h
  refine ⟨e, ?_, ?_, ?_⟩
  · rw [Value.sorted_object]
    change Decoder.ofMembers _ _ [(group, (c.groupEntry group properties).toValue.sorted)] ∅ = _
    rw [Decoder.ofMembers, he]
    rfl
  · intro key
    rw [← OrderedMap.related_eq_iff.mp hproperties, htells.1]
  · intro key name
    rw [← hattributes, htells.2]

/-- Objects with one group each are laid over one another like their groups. -/
theorem ofEntries_singletons {r : String → GroupEntry → Prop}
    {groups : List (String × PropertyMap)} {ms : List (OrderedMap String GroupEntry)}
    (h : List.Forall₂ (fun entry m => ∃ e, m = OrderedMap.insert ∅ entry.1 e ∧ r entry.1 e)
      groups ms) :
    ∃ entries : List (String × GroupEntry),
      groups.map Prod.fst = entries.map Prod.fst ∧ (∀ e ∈ entries, r e.1 e.2) ∧
      ofEntries ms = entries.foldl (fun c (group, e) => addEntry c group e) ∅ := by
  have hfold : ∀ c : Configuration, ∃ entries : List (String × GroupEntry),
      groups.map Prod.fst = entries.map Prod.fst ∧ (∀ e ∈ entries, r e.1 e.2) ∧
        ms.foldl (fun c entry => entry.entries.foldl (fun c (group, e) => addEntry c group e) c) c =
          entries.foldl (fun c (group, e) => addEntry c group e) c := by
    induction h with
    | nil => exact fun c => ⟨[], rfl, List.forall_mem_nil _, rfl⟩
    | @cons entry m groups ms hm _ ih =>
        intro c
        obtain ⟨e, rfl, he⟩ := hm
        obtain ⟨entries, hkeys, hentries, hrest⟩ := ih (c.addEntry entry.1 e)
        refine ⟨(entry.1, e) :: entries, ?_, List.forall_mem_cons.mpr ⟨he, hentries⟩, hrest⟩
        rw [List.map_cons, List.map_cons, hkeys]
  exact hfold ∅

/-- What is told about all groups in their order makes up a copy. -/
theorem isCopyOf_foldl_addEntry {c : Configuration} (hc : c.Grounded)
    {entries : List (String × GroupEntry)} (hkeys : c.properties.keys = entries.map Prod.fst)
    (hentries : ∀ e ∈ entries, c.Tells e.1 e.2) :
    (entries.foldl (fun c (group, e) => addEntry c group e) ∅).IsCopyOf c := by
  have hdistinct : (entries.map Prod.fst).Nodup := hkeys ▸ c.properties.distinct
  have hgrounded := grounded_ofEntries [⟨entries, hdistinct⟩]
  have hlookup : ∀ group, (∃ e, OrderedMap.lookupEntry group entries = some e ∧ c.Tells group e) ∨
      OrderedMap.lookupEntry group entries = none ∧ c.properties.get? group = none := by
    intro group
    cases he : OrderedMap.lookupEntry group entries with
    | some e => exact .inl ⟨e, rfl, hentries _ (OrderedMap.mem_of_lookupEntry he)⟩
    | none =>
        refine .inr ⟨rfl, ?_⟩
        rw [OrderedMap.get?_eq_none_iff, hkeys]
        exact OrderedMap.lookupEntry_eq_none_iff.mp he
  have hsame : (entries.foldl (fun c (group, e) => addEntry c group e) ∅).groups = c.groups := by
    rw [groups_foldl_addEntry (c := ∅) hdistinct, ← hkeys]
    rfl
  refine ⟨agrees_of_lookups hgrounded hc ?_ ?_ ?_, hsame⟩
  · exact fun group => by rw [← hsame]
  · intro group key
    apply ((lookups_foldl_addEntry hdistinct group).1 key).trans
    rcases hlookup group with ⟨e, he, htells⟩ | ⟨he, hnone⟩
    · rw [he, Option.bind_some, htells.1]
    · rw [he, property?, hnone]
      rfl
  · intro group key name
    apply ((lookups_foldl_addEntry hdistinct group).2 key name).trans
    rcases hlookup group with ⟨e, he, htells⟩ | ⟨he, hnone⟩
    · rw [he, Option.bind_some, htells.2]
    · -- A group that does not exist has no attributes either.
      have hattributes : c.attributes.get? group = none := by
        rw [OrderedMap.get?_eq_none_iff] at hnone ⊢
        exact fun hmem => hnone (hc.group group hmem)
      rw [he, attribute?, hattributes]
      rfl

/-- A grounded configuration is read back with its groups in their order. -/
theorem ofValue_toValue_sorted {c : Configuration} (hc : c.Grounded) :
    ∃ c', decoder.ofValue c.toValue.sorted = .ok c' ∧ c'.IsCopyOf c := by
  have hgroups : ∀ entry ∈ c.properties.entries, ∃ m,
      (Decoder.orderedMap GroupEntry.decoder).ofValue
        (Value.object [(entry.1, (c.groupEntry entry.1 entry.2).toValue)]).sorted = .ok m ∧
          ∃ e, m = OrderedMap.insert ∅ entry.1 e ∧ c.Tells entry.1 e := by
    rintro ⟨group, properties⟩ hmem
    obtain ⟨e, he, htells⟩ := group_ofValue_sorted (OrderedMap.get?_eq_some_iff.mpr hmem)
    exact ⟨_, he, e, rfl, htells⟩
  obtain ⟨ms, hms, hmatch⟩ := Decoder.list_ofValue_sorted hgroups
  obtain ⟨entries, hkeys, hentries, hofEntries⟩ := ofEntries_singletons hmatch
  refine ⟨ofEntries ms, congrArg (Except.map _) hms, ?_⟩
  rw [hofEntries]
  exact isCopyOf_foldl_addEntry hc hkeys hentries

theorem readable_toValue (c : Configuration) : c.toValue.Readable 5 := by
  apply Value.readable_array
  intro v hv
  obtain ⟨entry, -, rfl⟩ := List.mem_map.mp hv
  apply Value.readable_object
  intro member hmember
  rw [List.mem_singleton.mp hmember]
  exact GroupEntry.readable_toValue _

end Configuration

end ClusterBlueprint
