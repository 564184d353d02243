import ClusterBlueprint.Configuration
import ClusterBlueprint.Proofs.OrderedMap.Overlay

namespace ClusterBlueprint.Configuration

open OrderedMap (overlay latest)

def propertyKeys (c : Configuration) (group : String) : List String :=
  ((c.properties.get? group).getD ∅).keys

def attributeKeys (c : Configuration) (group : String) : List String :=
  ((c.attributes.get? group).getD ∅).keys

def attributeNames (c : Configuration) (group key : String) : List String :=
  ((((c.attributes.get? group).getD ∅).get? key).getD ∅).keys

/-- Whether a configuration is one laid over another: the upper one is asked first, and what is new
in it stands after what the base has. -/
structure IsOverlay (c base upper : Configuration) : Prop where
  properties : ∀ group key,
    c.property? group key = (upper.property? group key).or (base.property? group key)
  attributes : ∀ group key name,
    c.attribute? group key name =
      (upper.attribute? group key name).or (base.attribute? group key name)
  mem_groups : ∀ group, group ∈ c.groups ↔ group ∈ base.groups ∨ group ∈ upper.groups
  groups : c.groups = extended base.groups upper.groups
  propertyKeys : ∀ group,
    c.propertyKeys group = extended (base.propertyKeys group) (upper.propertyKeys group)
  attributedGroups : c.attributes.keys = extended base.attributes.keys upper.attributes.keys
  attributeKeys : ∀ group,
    c.attributeKeys group = extended (base.attributeKeys group) (upper.attributeKeys group)
  attributeNames : ∀ group key,
    c.attributeNames group key =
      extended (base.attributeNames group key) (upper.attributeNames group key)

theorem overlayProperties_eq (base upper : PropertyMap) :
    overlayProperties base upper = overlay latest base upper :=
  OrderedMap.insertAll_eq_overlay base upper

theorem overlayAttributes_eq (base upper : AttributeMap) :
    overlayAttributes base upper = overlay (overlay latest) base upper := by
  refine OrderedMap.foldl_alter_eq_overlay
    (f := fun byName old => (old.getD ∅).insertAll byName.entries) ?_ base upper
  rintro byName (_ | old)
  · exact (OrderedMap.insertAll_eq_overlay ∅ byName).trans (Std.LawfulLeftIdentity.left_id byName)
  · exact OrderedMap.insertAll_eq_overlay old byName

theorem mergedWith_eq (base upper : Configuration) :
    base.mergedWith upper =
      ⟨overlay (overlay latest) base.properties upper.properties,
        overlay (overlay (overlay latest)) base.attributes upper.attributes⟩ := by
  rw [mergedWith, Configuration.mk.injEq]
  constructor
  · refine OrderedMap.foldl_alter_eq_overlay
      (f := fun properties old => overlayProperties (old.getD ∅) properties) ?_ _ _
    rintro properties (_ | old)
    · exact (overlayProperties_eq ∅ properties).trans (Std.LawfulLeftIdentity.left_id properties)
    · exact overlayProperties_eq old properties
  · refine OrderedMap.foldl_alter_eq_overlay
      (f := fun attributes old => overlayAttributes (old.getD ∅) attributes) ?_ _ _
    rintro attributes (_ | old)
    · exact (overlayAttributes_eq ∅ attributes).trans (Std.LawfulLeftIdentity.left_id attributes)
    · exact overlayAttributes_eq old attributes

instance : Std.Associative mergedWith where
  assoc a b c := by
    simp only [mergedWith_eq, Configuration.mk.injEq]
    exact ⟨Std.Associative.assoc _ _ _, Std.Associative.assoc _ _ _⟩

instance : Std.IdempotentOp mergedWith where
  idempotent a := by
    rw [mergedWith_eq, Configuration.mk.injEq]
    exact ⟨Std.IdempotentOp.idempotent a.properties, Std.IdempotentOp.idempotent a.attributes⟩

instance : Std.LawfulIdentity mergedWith ∅ where
  left_id a := by
    rw [mergedWith_eq, Configuration.mk.injEq]
    exact ⟨Std.LawfulLeftIdentity.left_id a.properties, Std.LawfulLeftIdentity.left_id a.attributes⟩
  right_id _ := rfl

theorem isOverlay_mergedWith (base upper : Configuration) :
    (base.mergedWith upper).IsOverlay base upper := by
  have hgroups : (base.mergedWith upper).groups = extended base.groups upper.groups := by
    rw [mergedWith_eq]
    exact OrderedMap.keys_overlay base.properties upper.properties
  constructor
  case properties =>
    intro group key
    rw [mergedWith_eq]
    exact OrderedMap.bind_get?_overlay (fun a b => OrderedMap.get?_overlay_latest a b key) _ _ group
  case attributes =>
    intro group key name
    rw [mergedWith_eq]
    refine OrderedMap.bind_get?_overlay (fun a b => ?_) _ _ group
    exact OrderedMap.bind_get?_overlay (fun a b => OrderedMap.get?_overlay_latest a b name) a b key
  case mem_groups =>
    intro group
    rw [hgroups, mem_extended]
  case groups => exact hgroups
  case propertyKeys =>
    intro group
    rw [mergedWith_eq, Configuration.propertyKeys, OrderedMap.getD_get?_overlay]
    exact OrderedMap.keys_overlay _ _
  case attributedGroups =>
    rw [mergedWith_eq]
    exact OrderedMap.keys_overlay base.attributes upper.attributes
  case attributeKeys =>
    intro group
    rw [mergedWith_eq, Configuration.attributeKeys, OrderedMap.getD_get?_overlay]
    exact OrderedMap.keys_overlay _ _
  case attributeNames =>
    intro group key
    rw [mergedWith_eq, Configuration.attributeNames, OrderedMap.getD_get?_overlay,
      OrderedMap.getD_get?_overlay]
    exact OrderedMap.keys_overlay _ _

/-- Laying configurations over one another is associative and idempotent, and the empty one is
neutral on both sides. -/
theorem mergedWith_overlays (a b c : Configuration) :
    (a.mergedWith b).IsOverlay a b ∧
      (a.mergedWith b).mergedWith c = a.mergedWith (b.mergedWith c) ∧
      (∅ : Configuration).mergedWith a = a ∧ a.mergedWith ∅ = a ∧ a.mergedWith a = a :=
  ⟨isOverlay_mergedWith a b, Std.Associative.assoc a b c, Std.LawfulLeftIdentity.left_id a,
    Std.LawfulRightIdentity.right_id a, Std.IdempotentOp.idempotent a⟩

end ClusterBlueprint.Configuration
