namespace ClusterBlueprint.Files

/-- A path, relative to the top directory of a file tree. Roots of registries and stores are paths
of this kind. -/
abbrev Path := String

namespace Path

/-- Appends a path to another. An absolute path replaces what it is appended to. -/
def join (base part : Path) : Path :=
  if part.toList.head? = some '/' then part
  else if base.toList.getLast?.all (· = '/') then base ++ part
  else base ++ "/" ++ part

def splitSlash : List Char → List (List Char)
  | [] => [[]]
  | c :: rest =>
      if c = '/' then [] :: splitSlash rest
      else
        match splitSlash rest with
        | [] => [[c]]
        | part :: parts => (c :: part) :: parts

def parts (path : Path) : List String :=
  (splitSlash path.toList).map String.ofList

def splitLastDot : List Char → Option (List Char × List Char)
  | [] => none
  | c :: rest =>
      match splitLastDot rest with
      | some (stem, extension) => some (c :: stem, extension)
      | none => if c = '.' then some ([], rest) else none

/-- A file name without its extension, if it has the given one. A name that begins with its only
dot has no extension. -/
def stem? (extension name : String) : Option String :=
  match splitLastDot name.toList with
  | some (stem, found) =>
      if !stem.isEmpty && found == extension.toList then some (String.ofList stem) else none
  | none => none

end Path

end ClusterBlueprint.Files
