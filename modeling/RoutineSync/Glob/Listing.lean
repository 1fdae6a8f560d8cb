import RoutineSync.Glob.Pattern
import RoutineSync.Project.FileTree
/-!
The files of a tree that a pattern of paths names.
-/
set_option autoImplicit false

namespace RoutineSync.Glob

/-- Something found: how its path is spelled, and where it is. -/
structure Found where
  path : String
  place : Place

def Found.entry? (t : FileTree) (f : Found) : Option FileEntry :=
  if FileTree.isPath f.path then t.entry? f.place else none

def Found.isDirectory (t : FileTree) (f : Found) : Bool := f.entry? t == some .directory

def named? (t : FileTree) (f : Found) (name : String) : Option Found :=
  let next : Found := ⟨Path.join f.path name, FileTree.step f.place name⟩
  if (next.entry? t).isSome then some next else none

def Found.below (f : Found) (names : Place) : Found :=
  ⟨names.foldl Path.join f.path, f.place ++ names⟩

def startsWithDot : List Token → Bool
  | .char '.' :: _ => true
  | _ => false

/-- What is found from a directory on. One or two dots match a pattern that starts with a dot, as
the directory itself and the one above; behind any directories only names match. -/
def search (t : FileTree) (wantsDirectory : Bool) : List Component → Found → List Found
  | [], f => if wantsDirectory && !f.isDirectory t then [] else [f]
  | .name ks :: rest, f =>
    if !f.isDirectory t then []
    else
      match literal? ks with
      | some name => ((named? t f name).map (search t wantsDirectory rest)).getD []
      | none =>
        let fits (name : String) : Bool := matchName ks name.toList
        let dots := if startsWithDot ks then ["..", "."].filter fits else []
        let children := (t.below f.place).filterMap fun (names, _) =>
          if names.length = 1 && names.all fits then some (f.below names) else none
        (dots.filterMap (named? t f) ++ children).flatMap (search t wantsDirectory rest)
  | [.directories], f =>
    (t.below f.place).filterMap fun (names, e) =>
      if e = .directory then some (f.below names) else none
  | .directories :: .directories :: rest, f => search t wantsDirectory (.directories :: rest) f
  | .directories :: .name ks :: rest, f =>
    (t.below f.place).flatMap fun (names, _) =>
      if names.getLast?.any (fun n => matchName ks n.toList) then
        search t wantsDirectory rest (f.below names)
      else []

/-- The parts of a pattern between its slashes, but for an empty one at either end. -/
def partsOf (pattern : String) : List String :=
  let ps := Path.parts pattern
  let ps := if Path.isAbsolute pattern then ps.drop 1 else ps
  if ps.getLast? = some "" then ps.dropLast else ps

/-- The files that a pattern names, in the order of their paths; none for a malformed pattern. A
pattern that does not start at the top of the tree names no file. -/
def files? (t : FileTree) (pattern : String) : Option (List String) := do
  let components ← (partsOf pattern).mapM fun p => component? p.toList
  if !Path.isAbsolute pattern then return []
  let found := search t (pattern.toList.getLast? == some '/') components ⟨"/", []⟩
  let files := found.filter fun f => (f.entry? t).any (· != .directory)
  return (files.map (·.path)).mergeSort fun p q => !Path.lt q p

end RoutineSync.Glob
