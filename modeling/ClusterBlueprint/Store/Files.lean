import ClusterBlueprint.Store.Basic

namespace ClusterBlueprint

/-- Entities in the files of a directory, each in a file named for its blueprint. -/
structure EntityFiles where
  directory : Files.Path
deriving DecidableEq, Repr

namespace EntityFiles

def extension : String := "json"

def ofRoot (root : Files.Path) : EntityFiles :=
  ⟨root.join ".blueprints"⟩

def prepare (s : EntityFiles) (tree : Files.Tree) : Except StoreError Files.Tree :=
  (tree.makeDirectories s.directory).mapError (.io s.directory)

def entityPath (s : EntityFiles) (name : String) : Files.Path :=
  s.directory.join (name ++ "." ++ extension)

def find (s : EntityFiles) (tree : Files.Tree) (name : String) :
    Except StoreError (Option Entity) :=
  if isStorableName name then
    let path := s.entityPath name
    match tree.read path with
    | .error .notFound => .ok none
    | .error failure => .error (.io path failure)
    | .ok content => ((Entity.decoder.parse content).mapError (.malformed path)).map some
  else .ok none

def fileContent (e : Entity) : Bytes :=
  Utf8.encode e.toValue.pretty

def put (s : EntityFiles) (tree : Files.Tree) (e : Entity) : Except StoreError Files.Tree :=
  if isStorableName e.blueprintName then do
    let _ ← (tree.list s.directory).mapError (.io s.directory)
    let path := s.entityPath e.blueprintName
    (tree.write path (fileContent e)).mapError (.io path)
  else .error (.invalidName e.blueprintName)

/-- Removes the entity of a name, and says whether it was there. -/
def remove (s : EntityFiles) (tree : Files.Tree) (name : String) :
    Except StoreError (Bool × Files.Tree) :=
  if isStorableName name then
    let path := s.entityPath name
    match tree.remove path with
    | .ok tree => .ok (true, tree)
    | .error .notFound => .ok (false, tree)
    | .error failure => .error (.io path failure)
  else .ok (false, tree)

def names (s : EntityFiles) (tree : Files.Tree) : Except StoreError (List String) :=
  (tree.list s.directory).mapError (StoreError.io s.directory) |>.map fun entries =>
    (entries.filterMap (Files.Path.stem? extension)).mergeSort fun a b => a ≤ b

def store (s : EntityFiles) : BlueprintStore Files.Tree where
  find name := fun tree => (s.find tree name, tree)
  put e := fun tree =>
    match s.put tree e with
    | .ok tree => (.ok (), tree)
    | .error error => (.error error, tree)
  remove name := fun tree =>
    match s.remove tree name with
    | .ok (found, tree) => (.ok found, tree)
    | .error error => (.error error, tree)
  names := fun tree => (s.names tree, tree)

def describe (s : EntityFiles) : String :=
  "FsStore \x7b dir: " ++ Text.quoted s.directory ++ " \x7d"

end EntityFiles

end ClusterBlueprint
