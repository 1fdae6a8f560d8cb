import RoutineSync.Project.Path
import RoutineSync.Text.Basic
/-!
A tree of files, in which paths are followed name by name, from the top or from a working directory.
-/
set_option autoImplicit false

namespace RoutineSync

/-- The names that lead to something from the top. -/
abbrev Place := List String

inductive FileEntry where
  | directory
  | text (contents : Text)
  /-- A file whose bytes are no text. -/
  | binary
deriving DecidableEq

/-- Everything below the top, in the order of the places. -/
structure FileTree where
  entries : List (Place × FileEntry)
  /-- Where paths start that do not start at the top. -/
  working : Place := []

inductive ReadError where
  | missing | isDirectory | notText
deriving DecidableEq

namespace FileTree

def empty : FileTree := ⟨[], []⟩

def entry? (t : FileTree) (place : Place) : Option FileEntry :=
  if place = [] then some .directory else t.entries.lookup place

def isDirectory (t : FileTree) (place : Place) : Bool := t.entry? place == some .directory

/-- Order of places: what is in a directory comes right after it. -/
def placeLt (p q : Place) : Bool := Path.lexLt (fun a b => a < b) p q

def insert (place : Place) (e : FileEntry) : List (Place × FileEntry) → List (Place × FileEntry)
  | [] => [(place, e)]
  | (p, f) :: r =>
    if placeLt place p then (place, e) :: (p, f) :: r
    else if p = place then (place, e) :: r
    else (p, f) :: insert place e r

def put (t : FileTree) (place : Place) (e : FileEntry) : FileTree :=
  { t with entries := insert place e t.entries }

def erase (t : FileTree) (place : Place) : FileTree :=
  { t with entries := t.entries.filter fun e => e.1 != place }

/-- What is in a directory and in its directories, in order: the names behind the directory's own.
-/
def below (t : FileTree) (place : Place) : List (Place × FileEntry) :=
  t.entries.filterMap fun (p, e) =>
    if p.take place.length = place && place.length < p.length then some (p.drop place.length, e)
    else none

def step (place : Place) (part : String) : Place :=
  if part = "" || part = "." then place
  else if part = ".." then place.dropLast
  else place ++ [part]

def follow? (t : FileTree) : Place → List String → Option Place
  | place, [] => some place
  | place, part :: ps => if t.isDirectory place then follow? t (step place part) ps else none

/-- Bytes that are too many for a path. -/
def tooLong : Nat := 4096

def isPath (path : String) : Bool :=
  path ≠ "" && !(path.toList.contains '\x00') && path.utf8ByteSize < tooLong

def start (t : FileTree) (path : String) : Place := if Path.isAbsolute path then [] else t.working

/-- Where a path leads, whether or not something is there. -/
def locate? (t : FileTree) (path : String) : Option Place :=
  if isPath path then t.follow? (t.start path) (Path.parts path) else none

def at? (t : FileTree) (path : String) : Option FileEntry := (t.locate? path).bind t.entry?

def isFile (t : FileTree) (path : String) : Bool := (t.at? path).any (· != .directory)

def read (t : FileTree) (path : String) : Except ReadError Text :=
  match t.at? path with
  | none => .error .missing
  | some .directory => .error .isDirectory
  | some .binary => .error .notText
  | some (.text contents) => .ok contents

def isName (name : String) : Bool := name.utf8ByteSize ≤ 255

/-- Follows a path and makes the directories that are missing, up to where that fails. -/
def makeWay (t : FileTree) : Place → List String → FileTree
  | _, [] => t
  | place, part :: ps =>
    if t.isDirectory place then
      let next := step place part
      if (t.entry? next).isNone && isName part then makeWay (t.put next .directory) next ps
      else makeWay t next ps
    else t

def makeDirectory (t : FileTree) (path : String) : FileTree :=
  if isPath path then t.makeWay (t.start path) (Path.parts path) else t

/-- Writes a text file, after the directory that it is in. Tells whether that succeeded; where it
did not, directories may have been made all the same. -/
def write (t : FileTree) (path : String) (contents : Text) : Bool × FileTree :=
  let t := t.makeDirectory (Path.parent path)
  match t.locate? path with
  | some place =>
    if t.isDirectory place || !(place.getLast?.any isName) then (false, t)
    else (true, t.put place (.text contents))
  | none => (false, t)

end FileTree

end RoutineSync
