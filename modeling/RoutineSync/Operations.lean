import RoutineSync.History.Splice
import RoutineSync.Text.Change
import RoutineSync.Text.Lines
/-!
The operations on numbers, lists and texts that are only good for some arguments. What is built on
them is written once, over any `Operations`; these say what becomes of other arguments, in a monad
of theirs. The plain ones make something of every argument.
-/
set_option autoImplicit false

namespace RoutineSync

/-- A source of text that is read in a monad. -/
structure Access (m : Type → Type) where
  size : Nat
  slice : Nat → Nat → m Text
  lineStart : Nat → m Nat
  lineEnd : Nat → m Nat

def Source.access {m : Type → Type} [Monad m] (s : Source) : Access m where
  size := s.size
  slice start stop := return s.slice start stop
  lineStart place := return s.lineStart place
  lineEnd place := return s.lineEnd place

structure Operations (m : Type → Type) where
  /-- The first number less the second, which is not larger. -/
  sub : Nat → Nat → m Nat
  /-- A place moved to another that can be counted. -/
  move : Nat → Int → m Nat
  get? : {α : Type} → List α → Nat → m (Option α)
  rest : {α : Type} → List α → Nat → m (List α)
  range : {α : Type} → List α → Nat → Nat → m (List α)
  /-- What a splice takes out, and the list after it. -/
  splice : {α : Type} → Splice α → List α → m (List α × List α)
  fits : TextChange → Text → m Bool
  change : TextChange → Text → m Text
  replace : TextEdit → Text → m Text
  applyAll : List TextEdit → Text → m Text
  access : Text → Access m

def Operations.plain : Operations Id where
  sub a b := return a - b
  move place delta := return movePlace place delta
  get? xs index := return xs[index]?
  rest xs index := return xs.drop index
  range xs index count := return (xs.drop index).take count
  splice s xs := return (s.removed xs, s.run xs)
  fits c t := return c.fits t
  change c t := return c.apply t
  replace e t := return e.toChange.apply t
  applyAll es t := return TextEdit.applyAll es t
  access t := (Source.byCount t).access

end RoutineSync
