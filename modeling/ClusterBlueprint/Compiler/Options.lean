import ClusterBlueprint.Files.Path
import ClusterBlueprint.Json.Printer
import ClusterBlueprint.Text.Blank
import ClusterBlueprint.Text.Quoted

namespace ClusterBlueprint

structure CompilerOptions where
  pretty : Bool
  stackRoot : Option Files.Path
deriving DecidableEq, Repr

namespace CompilerOptions

def standard : CompilerOptions := ⟨false, none⟩

def layout (o : CompilerOptions) : Json.Layout :=
  if o.pretty then .indented else .compact

def prettyVariable : String := "BLUEPRINT_PRETTY_JSON"

def rootVariable : String := "BLUEPRINT_STACK_ROOT"

/-- Whether a text switches something on: `1`, `true`, `yes` or `on` in letters of either case, with
blanks around. -/
def isOn (value : String) : Bool :=
  ["1", "true", "yes", "on"].contains
    (String.ofList ((Text.trim value.toList).map Char.toLower))

def ofEnvironment (environment : String → Option String) : CompilerOptions where
  pretty := ((environment prettyVariable).map isOn).getD false
  stackRoot := (environment rootVariable).filter fun root => !root.isEmpty

def flagName (flag : Bool) : String :=
  if flag then "true" else "false"

def describeLayout (o : CompilerOptions) : String :=
  "CodecOptions \x7b pretty: " ++ flagName o.pretty ++ " \x7d"

def describe (o : CompilerOptions) : String :=
  let root := match o.stackRoot with
    | some root => "Some(" ++ Text.quoted root ++ ")"
    | none => "None"
  "CompilerConfig \x7b codec: " ++ o.describeLayout ++ ", stack_root: " ++ root ++ " \x7d"

end CompilerOptions

end ClusterBlueprint
