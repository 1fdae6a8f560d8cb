/-!
Paths of the file system, as texts with slashes, and the order of paths by their components.
-/
set_option autoImplicit false

namespace RoutineSync.Path

/-- What stands between the slashes, empty parts included. -/
def parts (path : String) : List String := (path.toList.splitOn '/').map String.ofList

def isAbsolute (path : String) : Bool := path.toList.head? == some '/'

/-- The components that tell two paths apart: repeated slashes and single dots count for nothing,
but for a slash or a dot at the very start. -/
def components (path : String) : List String :=
  let ps := parts path
  (if isAbsolute path then ["/"] else if ps.head? = some "." then ["."] else [])
    ++ ps.filter fun p => p ≠ "" && p ≠ "."

/-- The path of something in a directory; an absolute path stays as it is. -/
def join (directory path : String) : String :=
  if isAbsolute path || directory = "" then path
  else if directory.toList.getLast? = some '/' then directory ++ path
  else directory ++ "/" ++ path

/-- The directory that holds a path, without what says nothing at the end of either. -/
def parent (path : String) : String :=
  let trim (ps : List String) := ps.dropWhile fun p => p = "" || p = "."
  "/".intercalate (trim ((trim (parts path).reverse).drop 1)).reverse

/-- Order of components: a slash comes first, then one dot, then two dots, and names come last. -/
def rank (component : String) : Nat :=
  if component = "/" then 0 else if component = "." then 1 else if component = ".." then 2 else 3

def componentLt (a b : String) : Bool :=
  rank a < rank b || (rank a == 3 && rank b == 3 && a < b)

/-- Order of two lists, given the order of their elements; a list comes after its beginnings. -/
def lexLt (lt : String → String → Bool) : List String → List String → Bool
  | _, [] => false
  | [], _ :: _ => true
  | a :: as, b :: bs => lt a b || (a == b && lexLt lt as bs)

def lt (p q : String) : Bool := lexLt componentLt (components p) (components q)

def inside? (directory path : String) : Option (List String) :=
  let d := components directory
  let p := components path
  if d = p.take d.length then some (p.drop d.length) else none

end RoutineSync.Path
