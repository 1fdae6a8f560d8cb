/-!
Double-precision numbers, exactly. The finite magnitudes are numbered from zero upward, so a code
and its magnitude determine each other and the larger code is the larger magnitude.
-/
set_option autoImplicit false

namespace RoutineSync

/-- A finite magnitude, by its place among all of them in increasing order. -/
structure Magnitude where
  code : Nat
  code_lt : code < 2047 * Nat.pow 2 52
deriving DecidableEq, Repr

namespace Magnitude

def zero : Magnitude := ⟨0, by decide⟩

/-- Whole number of units: 53 bits, fewer only next to zero. -/
def significand (m : Magnitude) : Nat :=
  if m.code < Nat.pow 2 52 then m.code else Nat.pow 2 52 + m.code % Nat.pow 2 52

/-- The unit is two to the power of this, above the least exponent -1074. -/
def shift (m : Magnitude) : Nat := m.code / Nat.pow 2 52 - 1

def ratio (m : Magnitude) : Nat × Nat := (m.significand * Nat.pow 2 m.shift, Nat.pow 2 1074)

/-- The largest `e` with `2 ^ e * den ≤ num`, counted from -1074 and cut off there. -/
def binade (num den : Nat) : Nat :=
  let scaled := num * Nat.pow 2 1074 / den
  scaled.log2

/-- A quotient rounded to a whole number; halves go to the even neighbour. -/
def roundHalfEven (num den : Nat) : Nat :=
  let low := num / den
  let twice := 2 * (num % den)
  if twice < den then low
  else if den < twice then low + 1
  else if low % 2 = 0 then low else low + 1

/-- The magnitude nearest to `num / den`, of two the one with the even code; none when that lies
beyond the largest. -/
def ofRatio? (num den : Nat) : Option Magnitude :=
  let shift := binade num den - 52
  let units := roundHalfEven (num * Nat.pow 2 1074) (den * Nat.pow 2 shift)
  let code := shift * Nat.pow 2 52 + units
  if h : code < 2047 * Nat.pow 2 52 then some ⟨code, h⟩ else none

/-- The magnitude nearest to `digits * 10 ^ exponent`. Exponents far outside the range are settled
before any power is taken. -/
def ofDecimal? (digits : Nat) (exponent : Int) : Option Magnitude :=
  if digits = 0 then some zero
  else
    let top : Int := exponent + (digits.log2 / 3 : Nat) + 1
    if top < -400 then some zero
    else if exponent + (digits.log2 / 4 : Nat) > 310 then none
    else if 0 ≤ exponent then ofRatio? (digits * Nat.pow 10 exponent.toNat) 1
    else ofRatio? digits (Nat.pow 10 (-exponent).toNat)

end Magnitude

/-- A double-precision number. Equality tells the two zeros apart and finds one not-a-number equal
to itself; `Binary64.eqv` is the comparison of numbers. -/
inductive Binary64 where
  | nan
  | infinite (negative : Bool)
  | finite (negative : Bool) (magnitude : Magnitude)
deriving DecidableEq, Repr

namespace Binary64

def zero : Binary64 := .finite false .zero

def isFinite : Binary64 → Bool
  | .finite _ _ => true
  | _ => false

/-- Comparison as numbers: not-a-number differs from everything, and the zeros are equal. -/
def eqv : Binary64 → Binary64 → Bool
  | .nan, _ | _, .nan => false
  | .infinite a, .infinite b => a == b
  | .finite a m, .finite b n => m == n && (a == b || m.code == 0)
  | _, _ => false

theorem eqv_self_iff (x : Binary64) : x.eqv x = true ↔ x ≠ .nan := by
  cases x <;> simp [eqv]

def ofMagnitude (negative : Bool) : Option Magnitude → Binary64
  | some m => .finite negative m
  | none => .infinite negative

def ofDecimal (negative : Bool) (digits : Nat) (exponent : Int) : Binary64 :=
  ofMagnitude negative (Magnitude.ofDecimal? digits exponent)

def ofInt (n : Int) : Binary64 :=
  ofMagnitude (n < 0) (Magnitude.ofRatio? n.natAbs 1)

end Binary64

end RoutineSync
