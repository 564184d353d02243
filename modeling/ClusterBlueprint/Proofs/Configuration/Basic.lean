import ClusterBlueprint.Configuration.Wire
import ClusterBlueprint.Proofs.Configuration.Overlay

namespace ClusterBlueprint.Configuration

open OrderedMap (overlay latest)

/-- The configurations that can be built: from the empty one, or from what a document says, by
setting properties and attributes and by laying one over another. -/
inductive Built : Configuration → Prop
  | empty : Built ∅
  | ofEntries (entries : List (OrderedMap String GroupEntry)) : Built (ofEntries entries)
  | setProperty {c : Configuration} (h : Built c) (group key value : String) :
      Built (c.setProperty group key value)
  | setAttribute {c : Configuration} (h : Built c) (group key name value : String) :
      Built (c.setAttribute group key name value)
  | mergedWith {base upper : Configuration} (hbase : Built base) (hupper : Built upper) :
      Built (base.mergedWith upper)

/-- Whether the attributes of a group are there for some key, and those of every key for some
name. -/
def Filled (attributes : AttributeMap) : Prop :=
  attributes ≠ ∅ ∧ attributes.AllValues (· ≠ ∅)

/-- Whether groups with attributes exist, and their attributes are filled. -/
structure Grounded (c : Configuration) : Prop where
  group : ∀ group, group ∈ c.attributes.keys → group ∈ c.properties.keys
  filled : c.attributes.AllValues Filled

theorem grounded_empty : Grounded ∅ where
  group := fun _ h => nomatch h
  filled := OrderedMap.allValues_empty Filled

theorem Grounded.alterProperties {c : Configuration} (h : c.Grounded) (group : String)
    (f : Option PropertyMap → PropertyMap) :
    Grounded { c with properties := c.properties.alter group f } where
  group := fun group' hgroup' => OrderedMap.mem_keys_alter.mpr (.inr (h.group group' hgroup'))
  filled := h.filled

theorem allValues_getD_of_filled {old : Option AttributeMap} (h : ∀ a, old = some a → Filled a) :
    (old.getD ∅).AllValues (· ≠ ∅) := by
  cases old with
  | none => exact OrderedMap.allValues_empty _
  | some attributes => exact (h attributes rfl).2

theorem Grounded.putAttribute {c : Configuration} (h : c.Grounded) {group : String}
    (hgroup : group ∈ c.properties.keys) (key name value : String) :
    (c.putAttribute group key name value).Grounded := by
  refine ⟨?_, h.filled.alter group ?_⟩
  · intro group' hgroup'
    rcases OrderedMap.mem_keys_alter.mp hgroup' with rfl | hold
    · exact hgroup
    · exact h.group group' hold
  · intro old hold
    refine ⟨OrderedMap.alter_ne_empty _ _ _, ?_⟩
    exact (allValues_getD_of_filled hold).alter key fun _ _ => OrderedMap.alter_ne_empty _ _ _

theorem Grounded.setAttribute {c : Configuration} (h : c.Grounded) (group key name value : String) :
    (c.setAttribute group key name value).Grounded :=
  (h.alterProperties group _).putAttribute (OrderedMap.mem_keys_alter.mpr (.inl rfl)) key name value

theorem Filled.overlay {base upper : AttributeMap} (hbase : Filled base) (hupper : Filled upper) :
    Filled (overlay (overlay latest) base upper) := by
  refine ⟨OrderedMap.overlay_ne_empty hupper.1, hbase.2.overlay ?_ hupper.2⟩
  exact fun _ _ _ hbyName => OrderedMap.overlay_ne_empty hbyName

theorem Grounded.mergedWith {base upper : Configuration} (hbase : base.Grounded)
    (hupper : upper.Grounded) : (base.mergedWith upper).Grounded := by
  rw [mergedWith_eq]
  constructor
  · intro group hgroup
    rw [OrderedMap.keys_overlay, mem_extended] at hgroup ⊢
    exact hgroup.imp (hbase.group group) (hupper.group group)
  · exact hbase.filled.overlay (fun _ _ => Filled.overlay) hupper.filled

theorem Grounded.addEntry {c : Configuration} (h : c.Grounded) (group : String) (e : GroupEntry) :
    (c.addEntry group e).Grounded := by
  let HasGroup (c : Configuration) : Prop := c.Grounded ∧ group ∈ c.properties.keys
  have hgroup : HasGroup (c.addGroup group) :=
    ⟨h.alterProperties group _, OrderedMap.mem_keys_alter.mpr (.inl rfl)⟩
  refine (List.foldlRecOn (motive := HasGroup) e.attributes.entries _ (List.foldlRecOn
    (motive := HasGroup) e.properties.entries _ hgroup ?_) ?_).1
  · rintro c hc ⟨key, value⟩ -
    exact ⟨hc.1.alterProperties group _, OrderedMap.mem_keys_alter.mpr (.inl rfl)⟩
  · rintro c hc ⟨name, byKey⟩ -
    apply List.foldlRecOn (motive := HasGroup) byKey.entries _ hc
    rintro c hc ⟨key, value⟩ -
    exact ⟨hc.1.putAttribute hc.2 key name value, hc.2⟩

theorem grounded_ofEntries (entries : List (OrderedMap String GroupEntry)) :
    (ofEntries entries).Grounded := by
  apply List.foldlRecOn (motive := Grounded) entries _ grounded_empty
  intro c hc entry _
  apply List.foldlRecOn (motive := Grounded) entry.entries _ hc
  rintro c hc ⟨group, e⟩ -
  exact hc.addEntry group e

theorem Built.grounded {c : Configuration} (h : Built c) : c.Grounded := by
  induction h with
  | empty => exact grounded_empty
  | ofEntries entries => exact grounded_ofEntries entries
  | setProperty _ group key value ih => exact ih.alterProperties group _
  | setAttribute _ group key name value ih => exact ih.setAttribute group key name value
  | mergedWith _ _ ihbase ihupper => exact ihbase.mergedWith ihupper

theorem agrees_attributes {a b : AttributeMap} (ha : Filled a) (hb : Filled b)
    (h : ∀ key name, ((a.get? key).bind fun byName => byName.get? name) =
      (b.get? key).bind fun byName => byName.get? name) :
    a.agrees (OrderedMap.agrees (· == ·)) b = true := by
  rw [OrderedMap.agrees_iff]
  refine (OrderedMap.related_of_views OrderedMap.get? OrderedMap.get? ?_ ?_ h).imp ?_
  · intro key byName hkey
    exact OrderedMap.exists_get?_of_ne_empty (ha.2 key byName hkey)
  · intro key byName hkey
    exact OrderedMap.exists_get?_of_ne_empty (hb.2 key byName hkey)
  · intro byName byName' heq
    exact OrderedMap.agrees_beq_iff.mpr heq

/-- Grounded configurations are determined, up to the order inside their maps, by their groups and
by what can be looked up in them. -/
theorem agrees_of_lookups {a b : Configuration} (ha : a.Grounded) (hb : b.Grounded)
    (hgroup : ∀ group, group ∈ a.groups ↔ group ∈ b.groups)
    (hproperty : ∀ group key, a.property? group key = b.property? group key)
    (hattribute : ∀ group key name, a.attribute? group key name = b.attribute? group key name) :
    a.agrees b = true := by
  rw [agrees, Bool.and_eq_true]
  constructor
  · rw [OrderedMap.agrees_iff]
    intro group
    have hproperty := hproperty group
    simp only [property?] at hproperty
    by_cases hmem : group ∈ a.groups
    · obtain ⟨p, hp⟩ := OrderedMap.mem_keys_iff.mp hmem
      obtain ⟨q, hq⟩ := OrderedMap.mem_keys_iff.mp ((hgroup group).mp hmem)
      simp only [hp, hq, Option.bind_some] at hproperty
      rw [hp, hq]
      exact .some (OrderedMap.agrees_beq_iff.mpr (funext hproperty))
    · have hmem' : group ∉ b.groups := fun h => hmem ((hgroup group).mpr h)
      rw [OrderedMap.get?_eq_none_iff.mpr hmem, OrderedMap.get?_eq_none_iff.mpr hmem']
      exact .none
  · rw [OrderedMap.agrees_iff]
    let view (attributes : AttributeMap) (place : String × String) : Option String :=
      (attributes.get? place.1).bind fun byName => byName.get? place.2
    have hview : ∀ attributes, Filled attributes →
        ∃ place value, view attributes place = some value := by
      intro attributes hfilled
      obtain ⟨key, byName, hkey⟩ := OrderedMap.exists_get?_of_ne_empty hfilled.1
      obtain ⟨name, value, hname⟩ := OrderedMap.exists_get?_of_ne_empty (hfilled.2 key byName hkey)
      refine ⟨(key, name), value, ?_⟩
      simp only [view, hkey, Option.bind_some, hname]
    have hrelated := OrderedMap.related_of_views view view
      (fun group attributes h => hview attributes (ha.filled group attributes h))
      (fun group attributes h => hview attributes (hb.filled group attributes h))
      (fun group place => hattribute group place.1 place.2)
    intro group
    rcases hrelated.found_or_absent group with ⟨A, B, hA, hB, heq⟩ | ⟨hA, hB⟩
    · rw [hA, hB]
      exact .some (agrees_attributes (ha.filled group A hA) (hb.filled group B hB)
        fun key name => congrFun heq (key, name))
    · rw [hA, hB]
      exact .none

/-- Whether a configuration is another with its groups in the same order, and everything inside of
them in any order. -/
structure IsCopyOf (c' c : Configuration) : Prop where
  agrees : c'.agrees c = true
  groups : c'.groups = c.groups

theorem agrees_iff_related {c' c : Configuration} :
    c'.agrees c = true ↔ c'.properties.Related (OrderedMap.Related (· = ·)) c.properties ∧
      c'.attributes.Related (OrderedMap.Related (OrderedMap.Related (· = ·))) c.attributes := by
  simp only [agrees, Bool.and_eq_true, OrderedMap.agrees_iff, beq_iff_eq]

theorem related_properties_of_agrees {c' c : Configuration} (h : c'.agrees c = true) :
    c'.properties.Related (OrderedMap.Related (· = ·)) c.properties :=
  (agrees_iff_related.mp h).1

theorem related_attributes_of_agrees {c' c : Configuration} (h : c'.agrees c = true) :
    c'.attributes.Related (OrderedMap.Related (OrderedMap.Related (· = ·))) c.attributes :=
  (agrees_iff_related.mp h).2

/-- The order inside two configurations makes no difference to what one of them laid over the other
says. -/
theorem agrees_mergedWith {base base' upper upper' : Configuration}
    (hbase : base'.agrees base = true) (hupper : upper'.agrees upper = true) :
    (base'.mergedWith upper').agrees (base.mergedWith upper) = true := by
  rw [agrees_iff_related] at hbase hupper ⊢
  have hlatest : ∀ a a' b b' : String, a = b → a' = b' → latest a a' = latest b b' :=
    fun _ _ _ _ _ hab' => hab'
  have hinner {α : Type} {r : α → α → Prop} {combine : α → α → α}
      (hcombine : ∀ a a' b b', r a b → r a' b' → r (combine a a') (combine b b'))
      (a a' b b' : OrderedMap String α) (hab : a.Related r b) (hab' : a'.Related r b') :
      (overlay combine a a').Related r (overlay combine b b') :=
    hab.overlay hcombine hab'
  rw [mergedWith_eq, mergedWith_eq]
  exact ⟨hbase.1.overlay (hinner hlatest) hupper.1,
    hbase.2.overlay (hinner (hinner hlatest)) hupper.2⟩

theorem IsCopyOf.property? {c' c : Configuration} (h : c'.IsCopyOf c) (group key : String) :
    c'.property? group key = c.property? group key :=
  (related_properties_of_agrees h.agrees).cell? group key

theorem IsCopyOf.attribute? {c' c : Configuration} (h : c'.IsCopyOf c) (group key name : String) :
    c'.attribute? group key name = c.attribute? group key name := by
  rw [Configuration.attribute?, Configuration.attribute?]
  rcases (related_attributes_of_agrees h.agrees).found_or_absent group with
    ⟨a', a, ha', ha, hrelated⟩ | ⟨ha', ha⟩
  · rw [ha', ha]
    exact hrelated.cell? key name
  · rw [ha', ha]

end ClusterBlueprint.Configuration
