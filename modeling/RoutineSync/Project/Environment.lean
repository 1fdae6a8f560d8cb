import RoutineSync.Text.Basic
import RoutineSync.Text.Class
/-!
Variables of the environment in texts. `$NAME` and a name in braces stand for a variable's value,
and in braces a default may follow the name behind `:-`. Two dollar signs stand for one. A tilde in
front of a path stands for the home directory.
-/
set_option autoImplicit false

namespace RoutineSync

abbrev Environment := List (String × Text)

namespace Environment

def isNameChar (c : Char) : Bool := c = '_' || Text.isAlphanumeric c

/-- The text before the first `:-` and the text behind it. -/
def splitDefault? : Text → Option (Text × Text)
  | ':' :: '-' :: r => some ([], r)
  | c :: r => (splitDefault? r).map fun (a, b) => (c :: a, b)
  | [] => none

/-- The value of what stands between braces; none for a variable that is not set and has no default.
-/
def braced? (env : Environment) (t : Text) : Option Text :=
  match splitDefault? t with
  | some (c :: name, default) => some ((env.lookup (String.ofList (c :: name))).getD default)
  | _ => env.lookup (String.ofList t)

/-- Replaces all variables; none where one has no value. -/
def expand? (env : Environment) : Nat → Text → Option Text
  | 0, t => some t
  | fuel + 1, t =>
    match t with
    | '$' :: '\x7b' :: r =>
      if r.contains '\x7d' then do
        let value ← env.braced? (r.takeWhile (· ≠ '\x7d'))
        return value ++ (← env.expand? fuel ((r.dropWhile (· ≠ '\x7d')).drop 1))
      else (env.expand? fuel r).map ('$' :: '\x7b' :: ·)
    | '$' :: '$' :: r => (env.expand? fuel r).map ('$' :: ·)
    | '$' :: r =>
      let name := r.takeWhile isNameChar
      if name.isEmpty then (env.expand? fuel r).map ('$' :: ·)
      else do
        let value ← env.lookup (String.ofList name)
        return value ++ (← env.expand? fuel (r.dropWhile isNameChar))
    | c :: r => (env.expand? fuel r).map (c :: ·)
    | [] => some []

def expandHome (env : Environment) (t : Text) : Text :=
  match t, env.lookup "HOME" with
  | ['~'], some home => home
  | '~' :: '/' :: r, some home => home ++ '/' :: r
  | t, _ => t

/-- Replaces variables and the home directory. A tilde that comes from a variable stays, and so does
a whole path with a variable that has no value. -/
def expandPath (env : Environment) (t : Text) : Text :=
  match env.expand? t.length t with
  | none => t
  | some expanded => if t.head? = some '~' then env.expandHome expanded else expanded

end Environment

end RoutineSync
