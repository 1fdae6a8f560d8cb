import RoutineSync.Glob.Listing
import RoutineSync.Project.Environment
import RoutineSync.Project.Files
import RoutineSync.Toml.Document
/-!
The configuration: where the project is, and which of its files hold routines.
-/
set_option autoImplicit false

namespace RoutineSync

structure Config where
  project : String
  pattern : String
deriving DecidableEq

inductive ConfigError where
  | unreadable
  | malformed
  | badPattern (pattern : String)
deriving DecidableEq

namespace Config

def defaultPattern : String := "src/autons/**/*.cpp"

def ofProject (project : String) : Config := ⟨project, defaultPattern⟩

def home (env : Environment) : String :=
  String.ofList (env.expandHome "~/.config/vrc-auton/config.toml".toList)

/-- The configuration that a document writes. Keys of other names are passed over. -/
def ofText? (t : Text) : Option Config := do
  let entries ← Toml.document? t
  let project ← match entries.lookup "project_path" with
    | some (.text p) => some (String.ofList p)
    | _ => none
  match entries.lookup "auton_glob" with
  | none => return .ofProject project
  | some (.text p) => return ⟨project, String.ofList p⟩
  | some _ => none

def text (c : Config) : Text :=
  "project_path = ".toList ++ Toml.quote c.project.toList ++ '\n' ::
    "auton_glob = ".toList ++ Toml.quote c.pattern.toList ++ ['\n']

/-- Loads a configuration; none if there is no file. -/
def load (t : FileTree) (env : Environment) (path : String) : Except ConfigError (Option Config) :=
  match t.read path with
  | .error .missing => .ok none
  | .error _ => .error .unreadable
  | .ok contents =>
    match ofText? contents with
    | none => .error .malformed
    | some c => .ok (some { c with project := String.ofList (env.expandPath c.project.toList) })

def save (c : Config) (t : FileTree) (path : String) : Bool × FileTree := t.write path c.text

def routineFiles (c : Config) (t : FileTree) : Except ConfigError (List String) :=
  let pattern := Path.join c.project c.pattern
  match Glob.files? t pattern with
  | some files => .ok files
  | none => .error (.badPattern pattern)

end Config

end RoutineSync
