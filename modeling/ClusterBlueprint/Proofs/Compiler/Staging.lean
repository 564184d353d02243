import ClusterBlueprint.Proofs.Compiler.Lookups
import ClusterBlueprint.Proofs.Json.Decoder
import ClusterBlueprint.Proofs.Stack.Catalog

namespace ClusterBlueprint

theorem filterMap_eq_zip_of_forall₂ {α β : Type} {f : α → Option β} {as : List α} {bs : List β}
    (h : List.Forall₂ (fun a b => f a = some b) as bs) :
    (as.filterMap fun a => (f a).map (a, ·)) = as.zip bs := by
  induction h with
  | nil => rfl
  | cons hab _ ih => rw [List.filterMap_cons, hab, List.zip_cons_cons, ← ih]; rfl

def Blueprint.placements (b : Blueprint) : List (HostGroup × Component) :=
  b.hostGroups.flatMap fun g => g.components.map fun c => (g, c)

theorem Blueprint.mem_placements_iff {b : Blueprint} {g : HostGroup} {c : Component} :
    (g, c) ∈ b.placements ↔ g ∈ b.hostGroups ∧ c ∈ g.components := by
  simp [placements]

namespace ResolvedBlueprint

/-- What is staged where the declared stacks have the given descriptions, in their order. -/
structure Stages (r : ResolvedBlueprint) (found : List StackMetadata) : Prop where
  declared : r.declaredStacks = r.blueprint.stackIds.values.zip found
  staged : r.stagedComponents = r.blueprint.placements.map fun (g, c) =>
    ⟨g, c, found.filter fun m => m.Catalogs c.name⟩
  unknown : r.unknownComponents =
    (r.blueprint.placements.filter fun (_, c) => ∀ m ∈ found, m.serviceOf c.name = none).map
      fun (g, c) => (g.name, c.name)

theorem stages_of_forall₂ {r : ResolvedBlueprint} {found : List StackMetadata}
    (h : List.Forall₂ (fun id m => r.stack? id = some m) r.blueprint.stackIds.values found) :
    r.Stages found := by
  have hdeclared : r.declaredStacks = r.blueprint.stackIds.values.zip found :=
    filterMap_eq_zip_of_forall₂ h
  have hstaged : r.stagedComponents = r.blueprint.placements.map fun (g, c) =>
      ⟨g, c, found.filter fun m => m.Catalogs c.name⟩ := by
    rw [stagedComponents, hdeclared, List.map_snd_zip (Nat.le_of_eq h.length_eq.symm),
      Blueprint.placements, List.map_flatMap]
    simp only [List.map_map, StackMetadata.decide_catalogs]
    rfl
  refine ⟨hdeclared, hstaged, ?_⟩
  rw [unknownComponents, hstaged, List.filter_map, List.map_map]
  congr 1
  apply List.filter_congr
  rintro ⟨g, c⟩ -
  rw [Bool.eq_iff_iff, decide_eq_true_iff]
  simp [StackMetadata.serviceOf_eq_none_iff]

/-- A component is reported as unknown only where no declared stack catalogs it, and always there.
-/
theorem Stages.mem_unknownComponents_iff {r : ResolvedBlueprint} {found : List StackMetadata}
    (h : r.Stages found) {names : String × String} :
    names ∈ r.unknownComponents ↔ ∃ g ∈ r.blueprint.hostGroups, ∃ c ∈ g.components,
      names = (g.name, c.name) ∧ ∀ m ∈ found, ¬ m.Catalogs c.name := by
  rw [h.unknown, List.mem_map]
  simp only [List.mem_filter, decide_eq_true_iff, StackMetadata.serviceOf_eq_none_iff]
  constructor
  · rintro ⟨⟨g, c⟩, ⟨hmem, hnone⟩, rfl⟩
    obtain ⟨hg, hc⟩ := Blueprint.mem_placements_iff.mp hmem
    exact ⟨g, hg, c, hc, rfl, hnone⟩
  · rintro ⟨g, hg, c, hc, rfl, hnone⟩
    exact ⟨(g, c), ⟨Blueprint.mem_placements_iff.mpr ⟨hg, hc⟩, hnone⟩, rfl⟩

end ResolvedBlueprint

namespace StackRegistry

variable {σ : Type}

/-- What a successful resolution has asked: each declared stack once, and its catalog is the answers.
-/
theorem logged_of_resolveAll {registry : StackRegistry σ} {b : Blueprint} {r : ResolvedBlueprint}
    {s s' : σ} (h : registry.resolveAll b s = (.ok r, s')) :
    registry.logged.resolveAll b (s, []) = (.ok r, (s', granted r.catalog.entries)) ∧
      r.catalog.keys = b.stackIds.values.eraseDups := by
  obtain ⟨outcome, t, log, hanswer, hlogged, hsettles⟩ :=
    resolveIds_logged registry b.name b.stackIds.values ∅ s []
  rw [resolveAll_eq, hanswer] at h
  obtain ⟨hok, rfl⟩ := Prod.mk.inj h
  obtain ⟨catalog, rfl, rfl⟩ := Result.map_eq_ok hok
  obtain ⟨fresh, rfl, hids, hcatalog⟩ := hsettles
  obtain rfl : catalog.entries = fresh := hcatalog
  rw [lacking_empty] at hids
  refine ⟨?_, hids.symm⟩
  rw [resolveAll_eq, hlogged, List.nil_append]
  rfl

/-- Components are staged with the answers of the registry for the declared stacks, whatever the
registry is and however it changes while it is asked. -/
theorem stages_of_resolveAll {registry : StackRegistry σ} {b : Blueprint} {r : ResolvedBlueprint}
    {s s' : σ} (h : registry.resolveAll b s = (.ok r, s')) :
    ∃ log found,
      registry.logged.resolveAll b (s, []) = (.ok r, (s', log)) ∧
      (log.map Prod.fst).Nodup ∧
      List.Forall₂ (fun id m => (id, .ok m) ∈ log ∧ r.stack? id = some m) b.stackIds.values found ∧
      r.blueprint = b ∧ r.Stages found ∧
      (∀ names, names ∈ r.unknownComponents ↔ ∃ g ∈ b.hostGroups, ∃ c ∈ g.components,
        names = (g.name, c.name) ∧ ∀ m ∈ found, ¬ m.Catalogs c.name) ∧
      ∀ m : StackMetadata, ∀ component,
        ((m.serviceOf component).isSome = true ↔ m.Catalogs component) ∧
        ∀ service, m.serviceOf component = some service ↔
          m.Lists service component ∧
            ∀ service', m.Lists service' component → service ≤ service' := by
  obtain ⟨hlogged, hkeys⟩ := logged_of_resolveAll h
  obtain rfl := blueprint_of_resolveAll h
  have hfound : ∀ id ∈ r.blueprint.stackIds.values, ∃ m,
      (id, .ok m) ∈ granted r.catalog.entries ∧ r.stack? id = some m := by
    intro id hid
    rw [← List.mem_eraseDups, ← hkeys] at hid
    obtain ⟨m, hm⟩ := OrderedMap.mem_keys_iff.mp hid
    exact ⟨m, List.mem_map.mpr ⟨(id, m), OrderedMap.get?_eq_some_iff.mp hm, rfl⟩, hm⟩
  obtain ⟨found, hfound⟩ := Json.Decoder.exists_forall₂ hfound
  have hstages := ResolvedBlueprint.stages_of_forall₂ (hfound.imp fun _ _ hm => hm.2)
  refine ⟨_, found, hlogged, ?_, hfound, rfl, hstages, fun _ => hstages.mem_unknownComponents_iff,
    fun m component => ⟨?_, fun _ => StackMetadata.serviceOf_eq_some_iff⟩⟩
  · rw [keys_granted]
    exact r.catalog.distinct
  · rw [Option.isSome_iff_ne_none, ne_eq, StackMetadata.serviceOf_eq_none_iff, not_not]

def stagingSample : Blueprint :=
  { (Blueprint.ofName "demo").withStack ⟨"ODP", "1.2", rfl, rfl⟩ with
    hostGroups := [{ HostGroup.ofName "master" with
      components := [⟨"NAMENODE", none⟩, ⟨"BROKER", none⟩] }] }

def stagingShelf : StackShelf :=
  StackShelf.ofDescriptions [((StackMetadata.ofId ⟨"ODP", "1.2", rfl, rfl⟩).withService "HDFS"
    ["NAMENODE"]).withService "EXTRA" ["NAMENODE"]]

theorem stages_of_resolveAll_sample :
    ∃ log found,
      StackShelf.registry.logged.resolveAll stagingSample (stagingShelf, []) =
        (.ok ⟨stagingSample, stagingShelf⟩, (stagingShelf, log)) ∧
      found.map (fun m => m.serviceOf "NAMENODE") = [some "EXTRA"] ∧
      ResolvedBlueprint.Stages ⟨stagingSample, stagingShelf⟩ found ∧
      ResolvedBlueprint.unknownComponents ⟨stagingSample, stagingShelf⟩ =
        [("master", "BROKER")] := by
  have hrun : StackShelf.registry.resolveAll stagingSample stagingShelf =
      (.ok ⟨stagingSample, stagingShelf⟩, stagingShelf) := rfl
  obtain ⟨log, found, hlogged, -, hfound, -, hstages, -⟩ := stages_of_resolveAll hrun
  obtain ⟨m, rest, hm, hrest, rfl⟩ := List.forall₂_cons_left_iff.mp hfound
  obtain rfl := List.forall₂_nil_left_iff.mp hrest
  obtain rfl := Option.some.inj hm.2
  exact ⟨log, _, hlogged, rfl, hstages, rfl⟩

end StackRegistry

end ClusterBlueprint
