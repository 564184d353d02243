import ClusterBlueprint.Proofs.Blueprint.Structure
import ClusterBlueprint.Proofs.StackId
import Mathlib.Data.List.Induction

namespace ClusterBlueprint

/-- Whether a component is another one with its provision action filled in. -/
structure Component.FilledFrom (n c : Component) : Prop where
  name : n.name = c.name
  action_kept : ∀ action, c.action = some action → n.action = some action
  action_filled : c.action = none → n.action = some .installAndStart
  effectiveAction : n.effectiveAction = c.effectiveAction

/-- Whether a host group is another one with its cardinality and its provision actions filled in. -/
structure HostGroup.FilledFrom (n g : HostGroup) : Prop where
  name : n.name = g.name
  kind : n.kind = g.kind
  effectiveKind : n.effectiveKind = g.effectiveKind
  cardinality_kept : ∀ s, g.cardinality = some s → Text.isBlankText s = false →
    n.cardinality = some s
  cardinality_filled : (∀ s, g.cardinality = some s → Text.isBlankText s = true) →
    n.cardinality = some "1+"
  components : List.Forall₂ Component.FilledFrom n.components g.components
  configuration : n.configuration = g.configuration

namespace Blueprint

/-- Whether a blueprint is the normal form of another one. -/
structure IsNormalFormOf (n b : Blueprint) : Prop where
  fixed : n.normalize = .ok n
  stackIds : n.stackIds.entries = b.stackIds.values.eraseDups.map fun id => (id.display, id)
  distinct_stacks : n.stackIds.values.Nodup
  same_stacks : ∀ id, id ∈ n.stackIds.values ↔ id ∈ b.stackIds.values
  name : n.name = b.name
  hostGroups : List.Forall₂ HostGroup.FilledFrom n.hostGroups b.hostGroups
  configuration : n.configuration = b.configuration
  effectiveConfiguration : ∀ hostGroup,
    n.effectiveConfiguration hostGroup = b.effectiveConfiguration hostGroup
  settings : n.settings = b.settings
  security : n.security = b.security

theorem eraseDups_concat {α : Type} [DecidableEq α] (items : List α) (a : α) :
    (items ++ [a]).eraseDups = if a ∈ items then items.eraseDups else items.eraseDups ++ [a] := by
  rw [List.eraseDups_append, List.removeAll, List.filter_cons, List.filter_nil]
  by_cases ha : a ∈ items
  · simp [ha]
  · simp [ha, List.eraseDups_cons]

theorem stackMap_concat (ids : List StackId) (id : StackId) :
    stackMap (ids ++ [id]) = (stackMap ids).insert id.display id := by
  simp only [stackMap, OrderedMap.ofList, OrderedMap.insertAll, List.map_append, List.foldl_append]
  rfl

theorem keys_stackMap (ids : List StackId) :
    (stackMap ids).keys = ids.eraseDups.map StackId.display := by
  induction ids using List.reverseRecOn with
  | nil => rfl
  | append_singleton ids id ih =>
      have hmem : id.display ∈ (stackMap ids).keys ↔ id ∈ ids := by
        rw [ih, List.mem_map_of_injective StackId.display_injective, List.mem_eraseDups]
      rw [stackMap_concat, OrderedMap.keys_insert, eraseDups_concat]
      by_cases hid : id ∈ ids
      · rw [if_pos (hmem.mpr hid), if_pos hid, ih]
      · rw [if_neg (mt hmem.mp hid), if_neg hid, ih, List.map_append, List.map_singleton]

theorem values_stackMap (ids : List StackId) : (stackMap ids).values = ids.eraseDups := by
  have hdisplays := map_display_stackMap ids
  rw [keys_stackMap] at hdisplays
  exact List.map_injective_iff.mpr StackId.display_injective hdisplays

theorem fillComponent_filledFrom (c : Component) : (fillComponent c).FilledFrom c := by
  refine ⟨rfl, fun action h => ?_, fun h => ?_, rfl⟩
  · simp [fillComponent, Component.effectiveAction, h]
  · simp [fillComponent, Component.effectiveAction, h, ProvisionAction.standard]

theorem fillCardinality_of_not_blank {s : String} (h : Text.isBlankText s = false) :
    fillCardinality (some s) = s := by
  simp [fillCardinality, h]

theorem fillCardinality_of_blank {cardinality : Option String}
    (h : ∀ s, cardinality = some s → Text.isBlankText s = true) :
    fillCardinality cardinality = HostGroup.standardCardinality := by
  cases cardinality with
  | none => rfl
  | some s => simp [fillCardinality, h s rfl]

theorem fillHostGroup_filledFrom (g : HostGroup) : (fillHostGroup g).FilledFrom g where
  name := rfl
  kind := rfl
  effectiveKind := rfl
  cardinality_kept := by
    intro s hs hblank
    rw [fillHostGroup, hs, fillCardinality_of_not_blank hblank]
  cardinality_filled := by
    intro h
    rw [fillHostGroup, fillCardinality_of_blank h]
    rfl
  components := by
    rw [fillHostGroup, List.forall₂_map_left_iff, List.forall₂_same]
    exact fun c _ => fillComponent_filledFrom c
  configuration := rfl

theorem hostGroup?_fill (b : Blueprint) (name : String) :
    b.fill.hostGroup? name = (b.hostGroup? name).map fillHostGroup := by
  rw [hostGroup?, fill, List.find?_map]
  rfl

theorem effectiveConfiguration_fill (b : Blueprint) (hostGroup : String) :
    b.fill.effectiveConfiguration hostGroup = b.effectiveConfiguration hostGroup := by
  rw [effectiveConfiguration, hostGroup?_fill, Option.map_map]
  rfl

/-- A normal form is its own normal form, it has each stack once and under its written form, and it
differs in nothing else from its blueprint but in what it fills in. -/
theorem isNormalFormOf_of_normalize {b n : Blueprint} (h : b.normalize = .ok n) :
    n.IsNormalFormOf b := by
  have hfixed : n.normalize = .ok n := normalize_of_normalize h
  obtain ⟨-, rfl⟩ := normalize_eq_ok_iff.mp h
  have hvalues : b.fill.stackIds.values = b.stackIds.values.eraseDups := values_stackMap _
  have hentries : b.fill.stackIds.entries =
      b.stackIds.values.eraseDups.map fun id => (id.display, id) := by
    rw [← hvalues]
    exact (entries_stackMap _).symm
  have hgroups : List.Forall₂ HostGroup.FilledFrom b.fill.hostGroups b.hostGroups := by
    rw [fill, List.forall₂_map_left_iff, List.forall₂_same]
    exact fun g _ => fillHostGroup_filledFrom g
  exact {
    fixed := hfixed
    stackIds := hentries
    distinct_stacks := nodup_values_stackMap _
    same_stacks := fun id => by rw [hvalues, List.mem_eraseDups]
    name := rfl
    hostGroups := hgroups
    configuration := rfl
    effectiveConfiguration := effectiveConfiguration_fill b
    settings := rfl
    security := rfl }

def repeatedStacks : Blueprint where
  name := "demo"
  stackIds := .ofList [("b", ⟨"PHD", "2.1", by decide, by decide⟩),
    ("PHD-2.1", ⟨"HDF", "1-a", by decide, by decide⟩), ("a", ⟨"PHD", "2.1", by decide, by decide⟩)]
  hostGroups := [{ HostGroup.ofName "master" with
    cardinality := some "  "
    components := [⟨"NAMENODE", none⟩, ⟨"ZOOKEEPER", some .installOnly⟩] }]
  configuration := ∅
  settings := []
  security := .unsecured

theorem isNormalFormOf_of_normalize_sample :
    repeatedStacks.normalize = .ok repeatedStacks.fill ∧
      repeatedStacks.fill.IsNormalFormOf repeatedStacks := by
  have hnormal : repeatedStacks.normalize = .ok repeatedStacks.fill :=
    normalize_eq_ok_iff.mpr ⟨by decide, rfl⟩
  exact ⟨hnormal, isNormalFormOf_of_normalize hnormal⟩

end Blueprint

end ClusterBlueprint
