import RoutineSync.Text.Basic
/-!
Lines of a text, found in two ways: by searching for the newlines next to a place, and by counting
newlines and going back from a line's number to its place. A newline ends its line.
-/
set_option autoImplicit false

namespace RoutineSync
namespace Text

/-- The lines of a text, without the newlines and a carriage return before one. -/
def lines : Text → List Text
  | [] => []
  | '\n' :: r => [] :: lines r
  | '\r' :: '\n' :: r => [] :: lines r
  | c :: r =>
    match lines r with
    | [] => [[c]]
    | l :: ls => (c :: l) :: ls

/-- Bytes up to and including the last newline; zero in a text without one. -/
def throughLastNewline : Text → Nat
  | [] => 0
  | c :: r =>
    let later := throughLastNewline r
    if later ≠ 0 then c.utf8Size + later else if c = '\n' then c.utf8Size else 0

/-- Bytes before the first newline, or of the whole text. -/
def toFirstNewline : Text → Nat
  | [] => 0
  | c :: r => if c = '\n' then 0 else c.utf8Size + toFirstNewline r

def newlinesBefore : Text → Nat → Nat
  | _, 0 => 0
  | [], _ + 1 => 0
  | c :: r, n + 1 => (if c = '\n' then 1 else 0) + newlinesBefore r (n + 1 - c.utf8Size)

theorem newlinesBefore_append (a b : Text) : newlinesBefore (a ++ b) (size a) = a.count '\n' := by
  induction a with
  | nil => cases b <;> rfl
  | cons c r ih =>
    obtain ⟨k, hk⟩ : ∃ k, c.utf8Size = k + 1 := ⟨c.utf8Size - 1, by have := c.utf8Size_pos; omega⟩
    have hs : size (c :: r) = (k + size r) + 1 := by simp [hk]; omega
    rw [hs, List.cons_append, newlinesBefore, hk,
      show k + size r + 1 - (k + 1) = size r by omega, ih, List.count_cons]
    simp only [beq_iff_eq]
    omega

/-- The place after the newline number `k`; the end of the text when it has fewer. -/
def lineOffset : Text → Nat → Nat
  | _, 0 => 0
  | [], _ + 1 => 0
  | c :: r, k + 1 => c.utf8Size + lineOffset r (if c = '\n' then k else k + 1)

end Text

structure Source where
  size : Nat
  slice : Nat → Nat → Text
  lineStart : Nat → Nat
  /-- Where the newline stands that ends the line, or the end of the text. -/
  lineEnd : Nat → Nat

namespace Source

def bySearch (t : Text) : Source where
  size := t.size
  slice := t.slice
  lineStart offset := (t.slice 0 offset).throughLastNewline
  lineEnd offset := if t.isPlace offset then offset + (t.after offset).toFirstNewline else t.size

def byCount (t : Text) : Source where
  size := t.size
  slice := t.slice
  lineStart offset := t.lineOffset (t.newlinesBefore offset)
  lineEnd offset :=
    let line := t.newlinesBefore offset
    if line < t.newlinesBefore t.size then t.lineOffset (line + 1) - 1 else t.size

end Source

def Text.lineNumber (t : Text) (offset : Nat) : Nat := t.newlinesBefore offset

end RoutineSync
