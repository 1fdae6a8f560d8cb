import RoutineSync.Call.Gap
/-!
The grammar of calls: tokens and literals in a row, with a gap before each, and what may be left
out. It is read from one place, or from all places of a text at once; both find the same.
-/
set_option autoImplicit false

namespace RoutineSync

inductive Piece where
  | token (text : Text)
  | literal (p : Param)

namespace Piece

def split? : Piece → Text → Option (Text × Text)
  | .token w, t => (Text.afterPrefix? w t).map fun r => (w, r)
  | .literal p, t => p.type.literal? t

theorem append_of_split? {p : Piece} {t a b : Text} (h : p.split? t = some (a, b)) :
    a ++ b = t := by
  cases p with
  | token w =>
    obtain ⟨r, hr, he⟩ := Option.map_eq_some_iff.1 h
    simp only [Prod.mk.injEq] at he
    rw [← he.1, ← he.2, Text.afterPrefix?_eq_some_iff.1 hr]
  | literal p => exact ValueType.append_of_literal? h

def before (t : Text) : Piece → CallMatch → CallMatch
  | .token _, m => m.after t
  | .literal p, m => m.afterArgument p t

theorem text_before (p : Piece) (t : Text) (m : CallMatch) : (p.before t m).text = t ++ m.text := by
  cases p <;> rfl

def read (p : Piece) (k : Reader) : Reader := fun t =>
  (p.split? t).bind fun (a, r) => (k r).map (p.before a)

theorem sound_read {p : Piece} {k : Reader} (hk : k.Sound) : (p.read k).Sound := by
  intro t m h
  obtain ⟨⟨a, r⟩, hs, hm⟩ := Option.bind_eq_some_iff.1 h
  obtain ⟨n, hn, rfl⟩ := Option.map_eq_some_iff.1 hm
  rw [text_before, ← append_of_split? hs]
  exact CallMatch.after_isPrefix (hk _ _ hn)

/-- What is found at the start of a text with the piece, given what is found from each place on. -/
def find? (p : Piece) (t : Text) (next : Column) : Option CallMatch :=
  (p.split? t).bind fun (a, _) => (next.at a.length).map (p.before a)

theorem find?_column (p : Piece) (k : Reader) (t : Text) :
    p.find? t (k.column t) = p.read k t := by
  simp only [find?, read]
  cases h : p.split? t with
  | none => rfl
  | some s => simp [← append_of_split? h, Reader.column_at]

def column (p : Piece) : Text → Column → Column
  | [], next => [.mk fun _ => p.find? [] next]
  | c :: r, next => (.mk fun _ => p.find? (c :: r) next) :: p.column r next.tail

theorem column_column (p : Piece) (k : Reader) (t : Text) :
    p.column t (k.column t) = (p.read k).column t := by
  induction t with
  | nil => simp [column, ← find?_column]
  | cons c r ih => rw [column, find?_column, Reader.column_cons, List.tail_cons, ih]; rfl

end Piece

inductive Grammar where
  | done
  /-- A gap and a piece, and then on. -/
  | piece (p : Piece) (onward : Grammar)
  /-- The second one only where the first one cannot be read. -/
  | either (first second : Grammar)

namespace Grammar

def read (k : Reader) : Grammar → Reader
  | .done => k
  | .piece p onward => Gap.read (p.read (onward.read k)) .between
  | .either first second => fun t => (first.read k t).or (second.read k t)

theorem sound_read {k : Reader} (hk : k.Sound) (g : Grammar) : (g.read k).Sound := by
  induction g with
  | done => exact hk
  | piece p onward ih => exact Gap.sound_read (Piece.sound_read ih) _
  | either first second ih1 ih2 =>
    intro t m h
    rcases Option.or_eq_some_iff.1 h with h | ⟨_, h⟩
    · exact ih1 t m h
    · exact ih2 t m h

def column (t : Text) (next : Column) : Grammar → Column
  | .done => next
  | .piece p onward => Gap.column t (p.column t (onward.column t next))
  | .either first second =>
    List.zipWith (fun a b => .mk fun _ => a.get.orElse fun _ => b.get)
      (first.column t next) (second.column t next)

theorem column_column (k : Reader) (g : Grammar) (t : Text) :
    g.column t (k.column t) = (g.read k).column t := by
  induction g with
  | done => rfl
  | piece p onward ih => rw [column, ih, Piece.column_column, Gap.column_column]; rfl
  | either first second ih1 ih2 =>
    rw [column, ih1, ih2]
    simp [Reader.column, read, List.zipWith_map_left, List.zipWith_map_right, Thunk.get]

end Grammar

namespace CallShape

def closing : Grammar := .piece (.token [')']) (.piece (.token [';']) .done)

/-- Arguments with separators between them, and the end of the call. From an optional one on they
may be left out. -/
def arguments : Bool → List Param → Grammar
  | _, [] => closing
  | first, p :: ps =>
    let argument := Grammar.piece (.literal p) (arguments false ps)
    let separated := if first then argument else .piece (.token [',']) argument
    if p.optional then .either separated closing else separated

/-- A call of the shape behind its first token. -/
def grammar (s : CallShape) : Grammar :=
  ["::".toList, s.kind.callName.toList, ['(']].foldr (fun w g => .piece (.token w) g)
    (arguments true s.params)

end CallShape

end RoutineSync
