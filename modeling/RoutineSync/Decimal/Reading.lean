import RoutineSync.Decimal.Binary64
import RoutineSync.Text.Class
/-!
Reading numbers from a whole text: decimal numbers with an optional sign, point and exponent, the
names of the special numbers, and whole numbers of 64 bits. Only ASCII digits are read, and no
blank.
-/
set_option autoImplicit false

namespace RoutineSync

def digitsValue (acc : Nat) : List Char → Nat
  | [] => acc
  | c :: r => digitsValue (10 * acc + (c.toNat - 48)) r

def signAndRest : List Char → Bool × List Char
  | '-' :: r => (true, r)
  | '+' :: r => (false, r)
  | r => (false, r)

def natOfText? (t : List Char) : Option Nat :=
  if t ≠ [] ∧ t.all Text.isAsciiDigit then some (digitsValue 0 t) else none

def intOfText? (t : List Char) : Option Int :=
  let (negative, r) := signAndRest t
  (natOfText? r).map fun n => if negative then -(n : Int) else n

def int64OfText? (t : List Char) : Option Int64 :=
  (intOfText? t).bind fun n =>
    if Int64.minValue.toInt ≤ n ∧ n ≤ Int64.maxValue.toInt then some (Int64.ofInt n) else none

namespace Binary64

/-- Whether the text is `word`, which is in lower case, whatever the case of its ASCII letters. -/
def isNamed (word : String) (t : List Char) : Bool := t.map Char.toLower == word.toList

/-- An unsigned decimal: digits around an optional point, at least one of them, then an optional
exponent. -/
def decimalOfText? (t : List Char) : Option (Nat × Int) :=
  let whole := t.takeWhile Text.isAsciiDigit
  let r := t.dropWhile Text.isAsciiDigit
  let (fraction, r) :=
    match r with
    | '.' :: r => (r.takeWhile Text.isAsciiDigit, r.dropWhile Text.isAsciiDigit)
    | r => ([], r)
  let digits := digitsValue 0 (whole ++ fraction)
  if whole.isEmpty && fraction.isEmpty then none
  else
    match r with
    | [] => some (digits, -(fraction.length : Int))
    | e :: r =>
      if e = 'e' ∨ e = 'E' then (intOfText? r).map fun n => (digits, n - fraction.length)
      else none

def ofText? (t : List Char) : Option Binary64 :=
  let (negative, r) := signAndRest t
  if isNamed "nan" r then some .nan
  else if isNamed "inf" r || isNamed "infinity" r then some (.infinite negative)
  else (decimalOfText? r).map fun (digits, exponent) => ofDecimal negative digits exponent

end Binary64

end RoutineSync
