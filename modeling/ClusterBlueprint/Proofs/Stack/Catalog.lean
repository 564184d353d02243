import ClusterBlueprint.Proofs.SortedMap
import ClusterBlueprint.Stack.Metadata

namespace ClusterBlueprint.StackMetadata

/-- Whether a stack lists a component under a service. -/
def Lists (m : StackMetadata) (service component : String) : Prop :=
  ∃ components, m.services.get? service = some components ∧ component ∈ components.keys

def Catalogs (m : StackMetadata) (component : String) : Prop :=
  ∃ service, m.Lists service component

theorem hasComponent_eq_true_iff {m : StackMetadata} {component : String} :
    m.hasComponent component = true ↔ m.Catalogs component := by
  rw [hasComponent, List.any_eq_true]
  constructor
  · rintro ⟨⟨service, components⟩, hmem, hcontains⟩
    exact ⟨service, components, SortedMap.get?_eq_some_iff.mpr hmem,
      SortedMap.contains_eq_true_iff.mp hcontains⟩
  · rintro ⟨service, components, hget, hmem⟩
    exact ⟨(service, components), SortedMap.get?_eq_some_iff.mp hget,
      SortedMap.contains_eq_true_iff.mpr hmem⟩

instance (m : StackMetadata) (component : String) : Decidable (m.Catalogs component) :=
  decidable_of_iff (m.hasComponent component = true) hasComponent_eq_true_iff

theorem decide_catalogs (m : StackMetadata) (component : String) :
    decide (m.Catalogs component) = m.hasComponent component := by
  rw [Bool.eq_iff_iff, decide_eq_true_iff, hasComponent_eq_true_iff]

theorem serviceOf_eq_some_iff {m : StackMetadata} {component service : String} :
    m.serviceOf component = some service ↔
      m.Lists service component ∧
        ∀ service', m.Lists service' component → service ≤ service' := by
  refine (SortedMap.map_fst_find?_eq_some_iff
    (p := fun components : SortedSet => components.contains component)).trans ?_
  simp only [SortedMap.contains_eq_true_iff]
  constructor
  · rintro ⟨hlists, hleast⟩
    exact ⟨hlists, fun service' ⟨components, hget, hmem⟩ => hleast service' components hget hmem⟩
  · rintro ⟨hlists, hleast⟩
    exact ⟨hlists, fun service' components hget hmem => hleast service' ⟨components, hget, hmem⟩⟩

/-- The two questions that can be asked of a catalog have the same answer. -/
theorem serviceOf_eq_none_iff {m : StackMetadata} {component : String} :
    m.serviceOf component = none ↔ ¬ m.Catalogs component := by
  rw [← hasComponent_eq_true_iff, serviceOf, Option.map_eq_none_iff, List.find?_eq_none,
    hasComponent, List.any_eq_true]
  simp

end ClusterBlueprint.StackMetadata
