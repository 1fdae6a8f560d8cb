import RoutineSync.Action.Value
import RoutineSync.Decimal.Reading
import RoutineSync.Text.Class
/-!
Literals of a call: for each type of parameter the text that can stand for it, and the value that
such a text gives.
-/
set_option autoImplicit false

namespace RoutineSync

inductive ValueType where
  | float | int | bool | text
deriving DecidableEq, Repr

namespace ValueType

def all : List ValueType := [.float, .int, .bool, .text]

def letter : ValueType → String
  | .float => "f"
  | .int => "i"
  | .bool => "b"
  | .text => "s"

def ofLetter? (s : String) : Option ValueType := all.find? fun t => t.letter == s

end ValueType

def Value.type : Value → ValueType
  | .float _ => .float
  | .int _ => .int
  | .bool _ => .bool
  | .text _ => .text

namespace Literal

def minus : Text → Text × Text
  | '-' :: r => (['-'], r)
  | r => ([], r)

theorem minus_append (t : Text) : (minus t).1 ++ (minus t).2 = t := by
  unfold minus
  split <;> rfl

/-- The digits that come first, of any script, and the rest. -/
def digits (t : Text) : Text × Text := (t.takeWhile Text.isDigit, t.dropWhile Text.isDigit)

theorem digits_append (t : Text) : (digits t).1 ++ (digits t).2 = t := List.takeWhile_append_dropWhile

/-- The letter that marks a single-precision number, if it comes first, and the rest. -/
def floatMark : Text → Text × Text
  | 'f' :: r => (['f'], r)
  | 'F' :: r => (['F'], r)
  | r => ([], r)

theorem floatMark_append (t : Text) : (floatMark t).1 ++ (floatMark t).2 = t := by
  unfold floatMark
  split <;> rfl

def withoutMarks (t : Text) : Text := (t.reverse.dropWhile fun c => c == 'f' || c == 'F').reverse

/-- Digits with an optional point among them, at least one, then an optional mark. -/
def float? (t : Text) : Option (Text × Text) :=
  let (sign, r) := minus t
  let (whole, r) := digits r
  let body : Option (Text × Text) :=
    match whole, r with
    | [], '.' :: r =>
      let (fraction, r) := digits r
      if fraction.isEmpty then none else some ('.' :: fraction, r)
    | [], _ => none
    | whole, '.' :: r =>
      let (fraction, r) := digits r
      some (whole ++ '.' :: fraction, r)
    | whole, r => some (whole, r)
  body.map fun (number, r) =>
    let (mark, r) := floatMark r
    (sign ++ number ++ mark, r)

theorem float?_append {t a b : Text} (h : float? t = some (a, b)) : a ++ b = t := by
  simp only [float?, Option.map_eq_some_iff, Prod.exists, Prod.mk.injEq] at h
  obtain ⟨number, r, hn, ha, hb⟩ := h
  suffices hs : number ++ r = (minus t).2 by
    rw [← ha, ← hb, List.append_assoc, floatMark_append, List.append_assoc, hs, minus_append]
  have hd := digits_append (minus t).2
  split at hn
  · rename_i fr hw hr
    split at hn
    · simp at hn
    · simp only [Option.some.injEq, Prod.mk.injEq] at hn
      rw [← hn.1, ← hn.2, ← hd, hw, hr, List.nil_append, List.cons_append, digits_append]
  · simp at hn
  · rename_i hr _
    simp only [Option.some.injEq, Prod.mk.injEq] at hn
    rw [← hn.1, ← hn.2, List.append_assoc, List.cons_append, digits_append, ← hr, hd]
  · simp only [Option.some.injEq, Prod.mk.injEq] at hn
    rw [← hn.1, ← hn.2, hd]

def int? (t : Text) : Option (Text × Text) :=
  let (sign, r) := minus t
  let (whole, r) := digits r
  if whole.isEmpty then none else some (sign ++ whole, r)

theorem int?_append {t a b : Text} (h : int? t = some (a, b)) : a ++ b = t := by
  simp only [int?] at h
  split at h
  · simp at h
  · simp only [Option.some.injEq, Prod.mk.injEq] at h
    rw [← h.1, ← h.2, List.append_assoc, digits_append, minus_append]

/-- One of the two names or numbers of a truth value. -/
def bool? (t : Text) : Option (Text × Text) :=
  ["true", "false", "1", "0"].findSome? fun w =>
    (Text.afterPrefix? w.toList t).map fun r => (w.toList, r)

theorem bool?_append {t a b : Text} (h : bool? t = some (a, b)) : a ++ b = t := by
  obtain ⟨w, _, hw⟩ := List.exists_of_findSome?_eq_some h
  obtain ⟨r, hr, he⟩ := Option.map_eq_some_iff.1 hw
  simp only [Prod.mk.injEq] at he
  rw [← he.1, ← he.2]
  exact (Text.afterPrefix?_eq_some_iff.1 hr).symm

/-- The rest of a text literal, from after its first quote through the quote that ends it. -/
def closing? : Text → Option (Text × Text)
  | '"' :: r => some (['"'], r)
  | ['\\'] => none
  | '\\' :: c :: r =>
    if c = '\n' then none else (closing? r).map fun (a, b) => ('\\' :: c :: a, b)
  | c :: r => if c = '\n' then none else (closing? r).map fun (a, b) => (c :: a, b)
  | [] => none

theorem closing?_append {t a b : Text} (h : closing? t = some (a, b)) : a ++ b = t := by
  fun_induction closing? t generalizing a b with
  | case1 r => simp at h; simp [← h.1, ← h.2]
  | case2 => simp at h
  | case3 => simp at h
  | case4 c r _ ih =>
    obtain ⟨⟨x, y⟩, hx, he⟩ := Option.map_eq_some_iff.1 h
    simp only [Prod.mk.injEq] at he
    simp [← he.1, ← he.2, ih hx]
  | case5 => simp at h
  | case6 c r _ _ _ _ ih =>
    obtain ⟨⟨x, y⟩, hx, he⟩ := Option.map_eq_some_iff.1 h
    simp only [Prod.mk.injEq] at he
    simp [← he.1, ← he.2, ih hx]
  | case7 => simp at h

/-- Characters between quotes: no newline, and a quote only after a backslash. -/
def text? : Text → Option (Text × Text)
  | '"' :: r => (closing? r).map fun (a, b) => ('"' :: a, b)
  | _ => none

theorem text?_append {t a b : Text} (h : text? t = some (a, b)) : a ++ b = t := by
  unfold text? at h
  split at h
  · obtain ⟨⟨x, y⟩, hx, he⟩ := Option.map_eq_some_iff.1 h
    simp only [Prod.mk.injEq] at he
    simp [← he.1, ← he.2, closing?_append hx]
  · simp at h

end Literal

namespace ValueType

/-- The longest literal of the type that a text starts with, and the rest. A shorter literal is
never wanted: what follows a literal is neither a digit, a point nor a mark. -/
def literal? : ValueType → Text → Option (Text × Text)
  | .float => Literal.float?
  | .int => Literal.int?
  | .bool => Literal.bool?
  | .text => Literal.text?

theorem append_of_literal? {type : ValueType} {t a b : Text}
    (h : type.literal? t = some (a, b)) : a ++ b = t := by
  cases type
  · exact Literal.float?_append h
  · exact Literal.int?_append h
  · exact Literal.bool?_append h
  · exact Literal.text?_append h

/-- The value of a literal. Digits of other scripts than ASCII and integers of more than 64 bits
give none, although they are literals. -/
def read? : ValueType → Text → Option Value
  | .float, t => (Binary64.ofText? (Literal.withoutMarks t)).map .float
  | .int, t => (int64OfText? t).map .int
  | .bool, t =>
    if t = "true".toList ∨ t = ['1'] then some (.bool true)
    else if t = "false".toList ∨ t = ['0'] then some (.bool false)
    else none
  | .text, t =>
    match t with
    | '"' :: r => if r.getLast? = some '"' then some (.text r.dropLast) else none
    | _ => none

end ValueType

end RoutineSync
