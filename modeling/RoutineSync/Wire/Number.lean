import RoutineSync.Decimal.Reading
/-!
Numbers on the wire. The digits are collected in 64 bits; digits for which there is no more room
count only for the exponent, or not at all behind the point. The number is then scaled by powers of
ten, each time rounded to double precision, so it need not be the nearest one to what is written.
-/
set_option autoImplicit false

namespace RoutineSync.Wire

/-- The largest whole number that has room. -/
def maxWhole : Nat := Nat.pow 2 64 - 1

/-- A number being read: its digits so far and its exponent. -/
structure Scaled where
  digits : Nat
  exponent : Int

def wholeDigits (s : Scaled) : List Char → Scaled
  | [] => s
  | c :: r =>
    let digits := 10 * s.digits + (c.toNat - 48)
    if s.exponent = 0 ∧ digits ≤ maxWhole then wholeDigits ⟨digits, 0⟩ r
    else wholeDigits ⟨s.digits, s.exponent + 1⟩ r

/-- Digits behind the point; once one has no room, it and all later ones are passed over. -/
def fractionDigits (s : Scaled) : List Char → Scaled
  | [] => s
  | c :: r =>
    let digits := 10 * s.digits + (c.toNat - 48)
    if digits ≤ maxWhole then fractionDigits ⟨digits, s.exponent - 1⟩ r else s

def mulRounded (a b : Magnitude) : Option Magnitude :=
  Magnitude.ofRatio? (a.ratio.1 * b.ratio.1) (a.ratio.2 * b.ratio.2)

def divRounded (a b : Magnitude) : Option Magnitude :=
  Magnitude.ofRatio? (a.ratio.1 * b.ratio.2) (a.ratio.2 * b.ratio.1)

def powerOfTen (n : Nat) : Magnitude := (Magnitude.ofRatio? (Nat.pow 10 n) 1).getD .zero

/-- Scales a magnitude by a power of ten; none when it becomes too large. An exponent below -308 is
taken in parts of that size; three parts bring everything to zero. -/
def scale : Nat → Magnitude → Int → Option Magnitude
  | 0, m, _ => some m
  | parts + 1, m, exponent =>
    if 0 ≤ exponent then
      if exponent ≤ 308 then mulRounded m (powerOfTen exponent.toNat)
      else if m.code = 0 then some m else none
    else if -308 ≤ exponent then divRounded m (powerOfTen (-exponent).toNat)
    else if m.code = 0 then some m
    else (divRounded m (powerOfTen 308)).bind fun m => scale parts m (exponent + 308)

inductive Number where
  | natural (n : Nat)
  | negative (n : Int)
  | real (x : Binary64)
  /-- Too large for a double. -/
  | unreadable

def Scaled.real (negative : Bool) (s : Scaled) : Number :=
  match (Magnitude.ofRatio? s.digits 1).bind fun m => scale 4 m s.exponent with
  | some m => .real (.finite negative m)
  | none => .unreadable

/-- A number without point and exponent is whole where 64 bits hold it; minus zero is a real number.
-/
def wholeNumber (negative : Bool) (s : Scaled) : Number :=
  if s.exponent ≠ 0 then s.real negative
  else if !negative then .natural s.digits
  else if s.digits = 0 ∨ Nat.pow 2 63 < s.digits then s.real true
  else .negative (-(s.digits : Int))

/-- An exponent that 31 bits do not hold settles the number: zero, or unreadable. -/
def withExponent (negative : Bool) (s : Scaled) (down : Bool) (exponent : Nat) : Number :=
  if exponent < Nat.pow 2 31 then
    let change : Int := if down then -exponent else exponent
    Scaled.real negative { s with exponent := s.exponent + change }
  else if s.digits ≠ 0 ∧ !down then .unreadable
  else .real (.finite negative .zero)

def someDigits? (t : List Char) : Option (List Char × List Char) :=
  let ds := t.takeWhile Text.isAsciiDigit
  if ds.isEmpty then none else some (ds, t.dropWhile Text.isAsciiDigit)

/-- Reads a number at the start of a text: a whole part without needless zeros, then perhaps a point
with digits, then perhaps an exponent. -/
def readNumber? (t : List Char) : Option (Number × List Char) := do
  let (negative, t) := match t with
    | '-' :: r => (true, r)
    | r => (false, r)
  let (whole, r) ← someDigits? t
  guard (whole.length = 1 ∨ whole.head? ≠ some '0')
  let s := wholeDigits ⟨0, 0⟩ whole
  let (s, plain, r) ← match r with
    | '.' :: r => do
      let (fraction, r) ← someDigits? r
      some (fractionDigits s fraction, false, r)
    | r => some (s, true, r)
  match r with
  | e :: after =>
    if e = 'e' ∨ e = 'E' then
      let (down, after) := signAndRest after
      let (ds, r) ← someDigits? after
      return (withExponent negative s down (digitsValue 0 ds), r)
    else return (if plain then wholeNumber negative s else s.real negative, r)
  | [] => return (if plain then wholeNumber negative s else s.real negative, r)

end RoutineSync.Wire
