import RoutineSync.Call.Grammar
/-!
Finding calls of one shape in a text. A call starts with its first token at the start of a word.
-/
set_option autoImplicit false

namespace RoutineSync.CallShape

/-- The first token of a call, which no gap precedes. -/
def opening : Piece := .token "auton".toList

def match? (s : CallShape) : Reader := opening.read (s.grammar.read .stop)

theorem prefix_of_match? {s : CallShape} {t : Text} {m : CallMatch} (h : s.match? t = some m) :
    m.text <+: t :=
  Piece.sound_read (Grammar.sound_read Reader.sound_stop _) t m h

def matchColumn (s : CallShape) (t : Text) : Column :=
  opening.column t (s.grammar.column t (Reader.stop.column t))

theorem matchColumn_eq (s : CallShape) (t : Text) : s.matchColumn t = s.match?.column t := by
  rw [matchColumn, Grammar.column_column, Piece.column_column]; rfl

/-- Of the calls `found` at the places of a text that goes on after `before`, those at the start of
a word, none overlapping another, with their places; `skip` characters are part of the last call. -/
def separate : Option Char → Nat → Nat → Text → Column → List (Nat × CallMatch)
  | _, _, _, [], _ => []
  | _, skip + 1, place, c :: r, found => separate (some c) skip (place + c.utf8Size) r found.tail
  | before, 0, place, c :: r, found =>
    match (found.at 0).filter fun _ => !before.any Text.isWord with
    | some m =>
      (place, m) :: separate (some c) (m.text.length - 1) (place + c.utf8Size) r found.tail
    | none => separate (some c) 0 (place + c.utf8Size) r found.tail

def occurrences (s : CallShape) (t : Text) : List (Nat × CallMatch) :=
  separate none 0 0 t (s.matchColumn t)

end RoutineSync.CallShape
