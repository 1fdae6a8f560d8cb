import RoutineSync.Catalog
import RoutineSync.Project.FileTree
import RoutineSync.Scan
/-!
The source files of a project, and the catalog that is made from them.
-/
set_option autoImplicit false

namespace RoutineSync

inductive FileError where
  | notFound (path : String)
  | isDirectory
  | notText
  | unwritable
  | noDirectory
  | outside (path : String)
deriving DecidableEq

namespace FileError

def message : FileError → String
  | .notFound path => "File not found: " ++ path
  | .isDirectory => "IO error: Is a directory (os error 21)"
  | .notText => "IO error: stream did not contain valid UTF-8"
  | .unwritable => "IO error: cannot write"
  | .noDirectory => "Invalid project directory: Directory does not exist"
  | .outside path => "Path is outside the project: " ++ path

end FileError

namespace FileTree

def readSource (t : FileTree) (project : String) (path : RelativePath) : Except FileError Text :=
  match t.read (path.under project) with
  | .ok contents => .ok contents
  | .error .missing => .error (.notFound (path.under project))
  | .error .isDirectory => .error .isDirectory
  | .error .notText => .error .notText

def writeSource (t : FileTree) (project : String) (path : RelativePath) (contents : Text) :
    Except FileError Unit × FileTree :=
  let (written, t) := t.write (path.under project) contents
  (if written then .ok () else .error .unwritable, t)

def checkProject (t : FileTree) (project : String) : Except FileError Unit :=
  if t.at? project = some .directory then .ok () else .error .noDirectory

def relative? (project path : String) : Option RelativePath :=
  match Path.inside? project path with
  | some ("/" :: _) | none => none
  | some cs => some (.ofComponents (cs.filter (· ≠ ".")))

/-- Adds files to a catalog, up to the first that cannot be added. -/
def addFiles (t : FileTree) (project : String) :
    Catalog → List String → Minting (Except FileError Catalog)
  | c, [] => return .ok c
  | c, path :: paths => do
    match relative? project path with
    | none => return .error (.outside path)
    | some relative =>
      match t.readSource project relative with
      | .error e => return .error e
      | .ok text =>
        let steps ← scanSteps text 0
        t.addFiles project (c.setFile relative steps) paths

def catalog (t : FileTree) (project : String) (paths : List String) :
    Minting (Except FileError Catalog) :=
  t.addFiles project .empty paths

end FileTree

end RoutineSync
