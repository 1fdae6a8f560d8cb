/-!
Sets of code points as runs: the first and the last code point of each, in order.
-/
set_option autoImplicit false

namespace RoutineSync.Text

abbrev Runs := List (Nat × Nat)

namespace Runs

/-- Whether a code point is in a run. No run behind its place has to be looked at. -/
def has : Runs → Nat → Bool
  | [], _ => false
  | (first, last) :: rs, n => if n < first then false else n ≤ last || has rs n

end Runs

end RoutineSync.Text
