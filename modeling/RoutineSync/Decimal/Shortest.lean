import RoutineSync.Decimal.Binary64
/-!
The decimal text of a number: the fewest digits that read back as the number, nearest to it, written
without an exponent and without a fraction that is zero.
-/
set_option autoImplicit false

namespace RoutineSync

/-- `digits * 10 ^ exponent`. -/
structure Decimal where
  digits : Nat
  exponent : Int
deriving DecidableEq, Repr

namespace Decimal

def natText (n : Nat) : List Char := Nat.toDigits 10 n

/-- Positional form: a point stands only before digits of a fraction. -/
def text (d : Decimal) : List Char :=
  let ds := natText d.digits
  if 0 ≤ d.exponent then
    if d.digits = 0 then ds else ds ++ List.replicate d.exponent.toNat '0'
  else
    let places := (-d.exponent).toNat
    let padded := List.replicate (places + 1 - ds.length) '0' ++ ds
    padded.take (padded.length - places) ++ '.' :: padded.drop (padded.length - places)

end Decimal

namespace Magnitude

/-- Of the multiples of `10 ^ exponent` next to the magnitude, the one that reads back as it; of two
the nearer, and the upper one when both are equally near. -/
def onGrid? (m : Magnitude) (exponent : Int) : Option Decimal :=
  let (num, den) := m.ratio
  let num := if exponent < 0 then num * Nat.pow 10 (-exponent).toNat else num
  let den := if exponent < 0 then den else den * Nat.pow 10 exponent.toNat
  let low := num / den
  let reads (digits : Nat) : Bool := ofDecimal? digits exponent == some m
  let upperNearer : Bool := den ≤ 2 * (num % den)
  match reads low, reads (low + 1) with
  | true, true => some ⟨if upperNearer then low + 1 else low, exponent⟩
  | true, false => some ⟨low, exponent⟩
  | false, true => some ⟨low + 1, exponent⟩
  | false, false => none

def firstGrid : Nat → Magnitude → Int → Decimal
  | 0, _, exponent => ⟨0, exponent⟩
  | fuel + 1, m, exponent =>
    match m.onGrid? exponent with
    | some d => d
    | none => firstGrid fuel m (exponent - 1)

/-- The decimal with the fewest digits that reads back as the magnitude. A magnitude is a multiple
of `10 ^ (-1074)`, so the search ends there at the latest. -/
def shortest (m : Magnitude) : Decimal :=
  let (num, den) := m.ratio
  let top := (Decimal.natText (num / den)).length
  firstGrid (top + 1075) m top

end Magnitude

namespace Binary64

def text : Binary64 → List Char
  | .nan => ['N', 'a', 'N']
  | .infinite negative => (if negative then ['-'] else []) ++ ['i', 'n', 'f']
  | .finite negative m =>
    (if negative then ['-'] else []) ++ (if m.code = 0 then ['0'] else m.shortest.text)

end Binary64

end RoutineSync
