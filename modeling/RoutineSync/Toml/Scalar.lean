import RoutineSync.Decimal.Reading
import RoutineSync.Text.Class
import RoutineSync.Text.Hex
/-!
Truth values, numbers, dates and times, as far as to tell whether they are well-formed and have a
value.
-/
set_option autoImplicit false

namespace RoutineSync.Toml

/-- What follows digits; an underscore may stand between two of them. -/
def skipDigits (isDigit : Char → Bool) : Text → Text
  | '_' :: c :: r => if isDigit c then skipDigits isDigit r else '_' :: c :: r
  | c :: r => if isDigit c then skipDigits isDigit r else c :: r
  | [] => []

def afterDigits? (isDigit : Char → Bool) : Text → Option Text
  | c :: r => if isDigit c then some (skipDigits isDigit r) else none
  | [] => none

/-- What follows a whole decimal number, which has no needless zero in front. -/
def afterWhole? (t : Text) : Option Text :=
  match t with
  | '0' :: r => some r
  | t => afterDigits? Text.isAsciiDigit t

def unsigned (t : Text) : Text := (signAndRest t).2

/-- Digits in a base below 17. -/
def isDigitOf (base : Nat) (c : Char) : Bool := (Text.hexDigit? c).any (· < base)

/-- The number that digits write, whatever stands between them. -/
def digitSum (base : Nat) (t : Text) : Nat :=
  (t.filterMap Text.hexDigit?).foldl (fun n d => base * n + d) 0

/-- Whether 128 bits hold a whole number. -/
def fits (negative : Bool) (n : Nat) : Bool :=
  if negative then n ≤ Nat.pow 2 127 else n < Nat.pow 2 128

def isInteger (t : Text) : Bool :=
  let inBase (base : Nat) (r : Text) : Bool :=
    afterDigits? (isDigitOf base) r = some [] && fits false (digitSum base r)
  match t with
  | '0' :: 'x' :: r => inBase 16 r
  | '0' :: 'o' :: r => inBase 8 r
  | '0' :: 'b' :: r => inBase 2 r
  | t => afterWhole? (unsigned t) = some [] && fits (t.head? = some '-') (digitSum 10 (unsigned t))

/-- What follows an exponent; all of the text if there is none. -/
def afterExponent? (t : Text) : Option Text :=
  match t with
  | e :: r => if e = 'e' || e = 'E' then afterDigits? Text.isAsciiDigit (unsigned r) else some t
  | [] => some []

/-- Whether digits with a point or an exponent write a number that a double holds. -/
def isReal (t : Text) : Bool :=
  if unsigned t = "inf".toList || unsigned t = "nan".toList then true
  else
    let rest := do
      match ← afterWhole? (unsigned t) with
      | '.' :: r => afterExponent? (← afterDigits? Text.isAsciiDigit r)
      | [] => none
      | r => afterExponent? r
    rest = some [] && ((Binary64.ofText? (t.filter (· ≠ '_'))).any (·.isFinite))

def leadingDigits? (count : Nat) (t : Text) : Option (Nat × Text) :=
  if count ≤ t.length && (t.take count).all Text.isAsciiDigit then
    some (digitSum 10 (t.take count), t.drop count)
  else none

def after? (c : Char) : Text → Option Text
  | d :: r => if d = c then some r else none
  | [] => none

def isLeap (year : Nat) : Bool := year % 4 = 0 && (year % 100 ≠ 0 || year % 400 = 0)

def daysIn (year month : Nat) : Nat :=
  if month = 2 then if isLeap year then 29 else 28
  else if month = 4 || month = 6 || month = 9 || month = 11 then 30
  else 31

def afterDate? (t : Text) : Option Text := do
  let (year, r) ← leadingDigits? 4 t
  let (month, r) ← leadingDigits? 2 (← after? '-' r)
  let (day, r) ← leadingDigits? 2 (← after? '-' r)
  guard (1 ≤ month ∧ month ≤ 12 ∧ 1 ≤ day ∧ day ≤ daysIn year month)
  return r

def afterMinutes? (t : Text) : Option Text := do
  let (hour, r) ← leadingDigits? 2 t
  let (minute, r) ← leadingDigits? 2 (← after? ':' r)
  guard (hour ≤ 23 ∧ minute ≤ 59)
  return r

/-- A time of day; seconds and their fraction may be left out, and a second may be a leap second. -/
def afterTime? (t : Text) : Option Text := do
  match ← afterMinutes? t with
  | ':' :: r => do
    let (second, r) ← leadingDigits? 2 r
    guard (second ≤ 60)
    match r with
    | '.' :: d :: r => if Text.isAsciiDigit d then return r.dropWhile Text.isAsciiDigit else none
    | r => return r
  | r => return r

def afterOffset? : Text → Option Text
  | 'Z' :: r => some r
  | 'z' :: r => some r
  | '+' :: r => afterMinutes? r
  | '-' :: r => afterMinutes? r
  | t => some t

def isDateTime (t : Text) : Bool :=
  afterTime? t = some [] ||
    match afterDate? t with
    | some (c :: r) =>
      (c = 'T' || c = 't' || c = ' ') && ((afterTime? r).bind afterOffset?) = some []
    | some [] => true
    | none => false

def isScalar (t : Text) : Bool :=
  t = "true".toList || t = "false".toList || isInteger t || isReal t || isDateTime t

def isDelimiter (c : Char) : Bool :=
  c = ' ' || c = '\t' || c = '\n' || c = '\r' || c = '#' || c = ',' || c = ']' || c = '}'

/-- What follows a scalar. A date may have one blank between it and a time. -/
def afterScalar? (t : Text) : Option Text :=
  let first := t.takeWhile fun c => !isDelimiter c
  let rest := t.dropWhile fun c => !isDelimiter c
  let (word, rest) := match rest with
    | ' ' :: d :: r =>
      if afterDate? first = some [] && Text.isAsciiDigit d then
        (first ++ ' ' :: (d :: r).takeWhile (fun c => !isDelimiter c),
          (d :: r).dropWhile fun c => !isDelimiter c)
      else (first, rest)
    | _ => (first, rest)
  if isScalar word then some rest else none

end RoutineSync.Toml
