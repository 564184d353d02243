import ClusterBlueprint.Store.Basic

namespace ClusterBlueprint

abbrev EntityShelf := SortedMap Entity

namespace EntityShelf

/-- Puts an entity under its name, in place of one that is there. -/
def put (shelf : EntityShelf) (e : Entity) : Except StoreError EntityShelf :=
  if isStorableName e.blueprintName then .ok (SortedMap.insert shelf e.blueprintName e)
  else .error (.invalidName e.blueprintName)

def store : BlueprintStore EntityShelf where
  find name := fun shelf => (.ok (SortedMap.get? shelf name), shelf)
  put e := fun shelf =>
    match put shelf e with
    | .ok shelf => (.ok (), shelf)
    | .error error => (.error error, shelf)
  remove name := fun shelf =>
    (.ok (SortedMap.contains shelf name), SortedMap.erase shelf name)
  names := fun shelf => (.ok (SortedMap.keys shelf), shelf)

def describe (shelf : EntityShelf) : String :=
  "MemStore \x7b entities: " ++ toString (SortedMap.size shelf) ++ " \x7d"

end EntityShelf

end ClusterBlueprint
