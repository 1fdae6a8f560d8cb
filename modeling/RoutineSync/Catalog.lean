import RoutineSync.Action.Step
import RoutineSync.Project.RelativePath
/-!
The catalog of a project: the steps of each of its files, in the order of the paths.
-/
set_option autoImplicit false

namespace RoutineSync

/-- A file's path, as it was first spelled, and the steps in the file. -/
structure CatalogFile where
  path : RelativePath
  steps : List Step

/-- Files in strictly increasing order of their paths. -/
structure Catalog where
  files : List CatalogFile

namespace Catalog

def empty : Catalog := ⟨[]⟩

def steps? (c : Catalog) (path : RelativePath) : Option (List Step) :=
  (c.files.find? fun f => f.path.same path).map (·.steps)

/-- Puts a file at its place; a file that is there keeps its spelling. -/
def put (path : RelativePath) (steps : List Step) : List CatalogFile → List CatalogFile
  | [] => [⟨path, steps⟩]
  | f :: fs =>
    if path.lt f.path then ⟨path, steps⟩ :: f :: fs
    else if f.path.same path then ⟨f.path, steps⟩ :: fs
    else f :: put path steps fs

def setFile (c : Catalog) (path : RelativePath) (steps : List Step) : Catalog :=
  ⟨put path steps c.files⟩

def removeFile (c : Catalog) (path : RelativePath) : Catalog :=
  ⟨c.files.filter fun f => !f.path.same path⟩

/-- Every step with its file, in the order of the paths and then of the text. -/
def entries (c : Catalog) : List (RelativePath × Step) :=
  c.files.flatMap fun f => f.steps.map fun s => (f.path, s)

def find? (c : Catalog) (id : ActionId) : Option (RelativePath × Step) :=
  c.entries.find? fun e => e.2.id == id

def size (c : Catalog) : Nat := c.files.length

end Catalog

end RoutineSync
