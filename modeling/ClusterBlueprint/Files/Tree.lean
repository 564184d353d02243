import ClusterBlueprint.Files.Path
import ClusterBlueprint.SortedMap
import ClusterBlueprint.Text.Utf8

/-!
File trees. A tree is a directory with files and further directories under their names. Every
operation follows a path from the top directory and fails as a file system does when the path leads
nowhere or to the wrong thing.
-/

namespace ClusterBlueprint.Files

/-- A file or a directory, whose entries stand in ascending order of their names. -/
inductive Node where
  | file (content : Bytes)
  | directory (entries : List (String × Node))

inductive Failure where
  | notFound
  | fileExists
  | notADirectory
  | isADirectory
  | nameTooLong
  | nulInName
deriving DecidableEq, Repr

def Failure.message : Failure → String
  | .notFound => "No such file or directory (os error 2)"
  | .fileExists => "File exists (os error 17)"
  | .notADirectory => "Not a directory (os error 20)"
  | .isADirectory => "Is a directory (os error 21)"
  | .nameTooLong => "File name too long (os error 36)"
  | .nulInName => "file name contained an unexpected NUL byte"

namespace Node

def at? : Node → List String → Option Node
  | node, [] => some node
  | .directory entries, name :: names =>
      match SortedMap.lookupEntry name entries with
      | some node => at? node names
      | none => none
  | .file _, _ :: _ => none

/-- Puts a node at the end of a list of names; directories that are missing on the way are
made. -/
def put (new : Node) : Node → List String → Node
  | _, [] => new
  | .directory entries, name :: names =>
      .directory (SortedMap.alterEntry name
        (fun old => put new (old.getD (.directory [])) names) entries)
  | .file content, _ :: _ => .file content

def erase : Node → List String → Node
  | node, [] => node
  | .directory entries, [name] => .directory (SortedMap.eraseEntry name entries)
  | .directory entries, name :: names =>
      match SortedMap.lookupEntry name entries with
      | some node =>
          .directory (SortedMap.alterEntry name (fun _ => erase node names) entries)
      | none => .directory entries
  | .file content, _ :: _ => .file content

end Node

/-- The contents of a file system below one directory. -/
structure Tree where
  entries : List (String × Node)

namespace Tree

def empty : Tree := ⟨[]⟩

instance : EmptyCollection Tree := ⟨empty⟩

def top (t : Tree) : Node :=
  .directory t.entries

def ofTop : Node → Tree
  | .directory entries => ⟨entries⟩
  | .file _ => ∅

def at? (t : Tree) (names : List String) : Option Node :=
  t.top.at? names

def put (t : Tree) (names : List String) (node : Node) : Tree :=
  ofTop (node.put t.top names)

def erase (t : Tree) (names : List String) : Tree :=
  ofTop (t.top.erase names)

def greatestName : Nat := 255

def greatestPath : Nat := 4095

/-- Follows the parts of a path from a directory, given by its names in reverse. The last name need
not exist, unless something comes after it. What lies above the top directory is not there. -/
def follow (t : Tree) : (above : List String) → (parts : List String) →
    Except Failure (List String)
  | above, [] => .ok above.reverse
  | above, part :: parts =>
      if part = "" ∨ part = "." then follow t above parts
      else if part = ".." then
        match above with
        | [] => .error .notFound
        | _ :: above => follow t above parts
      else if greatestName < part.utf8ByteSize then .error .nameTooLong
      else if parts.isEmpty then .ok (part :: above).reverse
      else
        match t.at? (part :: above).reverse with
        | none => .error .notFound
        | some (.file _) => .error .notADirectory
        | some (.directory _) => follow t (part :: above) parts

/-- The names a path leads to from the top directory. An absolute path does not start there: it
leads out of the tree, to what is not there. -/
def resolve (t : Tree) (path : Path) : Except Failure (List String) :=
  if path.toList.contains '\x00' then .error .nulInName
  else if path.isEmpty || path.toList.head? = some '/' then .error .notFound
  else if greatestPath < path.utf8ByteSize then .error .nameTooLong
  else t.follow [] path.parts

def read (t : Tree) (path : Path) : Except Failure Bytes := do
  let names ← t.resolve path
  match t.at? names with
  | some (.file content) => .ok content
  | some (.directory _) => .error .isADirectory
  | none => .error .notFound

def write (t : Tree) (path : Path) (content : Bytes) : Except Failure Tree := do
  let names ← t.resolve path
  match t.at? names with
  | some (.directory _) => .error .isADirectory
  | _ => .ok (t.put names (.file content))

def remove (t : Tree) (path : Path) : Except Failure Tree := do
  let names ← t.resolve path
  match t.at? names with
  | some (.file _) => .ok (t.erase names)
  | some (.directory _) => .error .isADirectory
  | none => .error .notFound

def list (t : Tree) (path : Path) : Except Failure (List String) := do
  let names ← t.resolve path
  match t.at? names with
  | some (.directory entries) => .ok (entries.map Prod.fst)
  | some (.file _) => .error .notADirectory
  | none => .error .notFound

/-- Makes directories along the parts of a path from a directory, given by its names in reverse. -/
def makeAlong (t : Tree) : (above : List String) → (parts : List String) → Except Failure Tree
  | _, [] => .ok t
  | above, part :: parts =>
      if part = "" ∨ part = "." then makeAlong t above parts
      else if part = ".." then
        match above with
        | [] => .error .notFound
        | _ :: above => makeAlong t above parts
      else if greatestName < part.utf8ByteSize then .error .nameTooLong
      else
        match t.at? (part :: above).reverse with
        | none => makeAlong (t.put (part :: above).reverse (.directory [])) (part :: above) parts
        | some (.directory _) => makeAlong t (part :: above) parts
        | some (.file _) => .error (if parts.isEmpty then .fileExists else .notADirectory)

/-- Makes the directories of a path, which is relative to the top directory: the tree holds nothing
an absolute path could be made in. -/
def makeDirectories (t : Tree) (path : Path) : Except Failure Tree :=
  if path.toList.contains '\x00' then .error .nulInName
  else if path.toList.head? = some '/' then .error .notFound
  else if greatestPath < path.utf8ByteSize then .error .nameTooLong
  else t.makeAlong [] path.parts

/-- Writes a file and makes the directories above it, where they are missing. -/
def writeDeep (t : Tree) (path : Path) (content : Bytes) : Except Failure Tree := do
  let t ← t.makeDirectories ("/".intercalate path.parts.dropLast)
  t.write path content

end Tree

end ClusterBlueprint.Files
