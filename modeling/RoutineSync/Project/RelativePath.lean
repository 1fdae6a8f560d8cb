import RoutineSync.Project.Path
/-!
Paths of files inside a project. Two spellings are the same path when they have the same components;
slashes at the ends and repeated slashes do not matter, dots do.
-/
set_option autoImplicit false

namespace RoutineSync

structure RelativePath where
  spelling : String
deriving DecidableEq, Repr

namespace RelativePath

def components (p : RelativePath) : List String := (Path.parts p.spelling).filter fun c => c ≠ ""

def ofComponents (cs : List String) : RelativePath := ⟨"/".intercalate cs⟩

def same (p q : RelativePath) : Bool := p.components == q.components

def lt (p q : RelativePath) : Bool := Path.lexLt Path.componentLt p.components q.components

def under (p : RelativePath) (directory : String) : String :=
  p.components.foldl (fun acc c => if acc = "" then c else acc ++ "/" ++ c) directory

end RelativePath

end RoutineSync
