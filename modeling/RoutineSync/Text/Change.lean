import RoutineSync.Text.Basic
/-!
Changes of a text: one change as a host reports it, a batch of edits that are made at once, and the
drift of places behind a change.
-/
set_option autoImplicit false

namespace RoutineSync

/-- The largest number of bytes that a place can count. -/
def maxPlace : Nat := Nat.pow 2 64 - 1

def movePlace (place : Nat) (delta : Int) : Nat := min (place + delta).toNat maxPlace

/-- One change: `length` bytes at `offset` give way to `text`. -/
structure TextChange where
  offset : Nat
  length : Nat
  text : Text
deriving DecidableEq

namespace TextChange

def stop (c : TextChange) : Nat := c.offset + c.length

def delta (c : TextChange) : Int := c.text.size - c.length

/-- Whether the change cuts between characters and inside the text. -/
def fits (c : TextChange) (t : Text) : Bool := t.isPlace c.offset && t.isPlace c.stop

def apply (c : TextChange) (t : Text) : Text := t.before c.offset ++ c.text ++ t.after c.stop

end TextChange

structure TextEdit where
  range : ByteRange
  text : Text
deriving DecidableEq

namespace TextEdit

def delta (e : TextEdit) : Int := e.text.size - ((e.range.stop : Int) - e.range.start)

def isInsertionAt (e : TextEdit) (place : Nat) : Bool :=
  e.range.start == place && e.range.stop == place

def toChange (e : TextEdit) : TextChange := ⟨e.range.start, e.range.stop - e.range.start, e.text⟩

/-- Makes edits at once, given in order and not overlapping, in a text whose first byte is at place
`from`: what stands between the edits is copied. -/
def applyFrom : Nat → List TextEdit → Text → Text
  | _, [], t => t
  | place, e :: es, t =>
    t.before (e.range.start - place) ++ e.text
      ++ applyFrom e.range.stop es (t.after (e.range.stop - place))

def applyAll (es : List TextEdit) (t : Text) : Text := applyFrom 0 es t

/-- Edits as changes made one after another: the last one first, so that none moves the
places of those that follow. -/
def toChanges (es : List TextEdit) : List TextChange := es.reverse.map toChange

def totalDelta : List TextEdit → Int
  | [] => 0
  | e :: es => e.delta + totalDelta es

theorem totalDelta_append (es fs : List TextEdit) :
    totalDelta (es ++ fs) = totalDelta es + totalDelta fs := by
  induction es with
  | nil => simp [totalDelta]
  | cons e es ih => simp [totalDelta, ih, Int.add_assoc]

section
variable {α : Type} (move : Nat → Int → α) (es : List TextEdit)

/-- Where a place lands behind the edits, given how places move and which of the edits count. -/
def landBy (counts : TextEdit → Bool) (place : Nat) : α :=
  move place (totalDelta (es.filter counts))

/-- Where a place lands; text inserted exactly there goes before it. -/
def landStartBy (place : Nat) : α := landBy move es (fun e => e.range.stop ≤ place) place

/-- Where a place lands; text inserted exactly there goes after it. -/
def landEndBy (place : Nat) : α :=
  landBy move es (fun e => e.range.stop ≤ place && !e.isInsertionAt place) place

end

def land (es : List TextEdit) (counts : TextEdit → Bool) (place : Nat) : Nat :=
  landBy movePlace es counts place

def landStart (es : List TextEdit) (place : Nat) : Nat := landStartBy movePlace es place

def landEnd (es : List TextEdit) (place : Nat) : Nat := landEndBy movePlace es place

end TextEdit

structure Drift where
  boundary : Nat
  delta : Int
deriving DecidableEq

namespace Drift

section
variable {m : Type → Type} [Monad m] (move : Nat → Int → m Nat)

def movedBy (d : Drift) (behind : Prop) [Decidable behind] (place : Nat) : m Nat :=
  if behind then move place d.delta else return place

/-- A range that starts at the boundary moves, one that ends there does not. -/
def applyBy (d : Drift) (r : ByteRange) : m ByteRange := do
  let start ← d.movedBy move (d.boundary ≤ r.start) r.start
  let stop ← d.movedBy move (d.boundary < r.stop) r.stop
  return ⟨start, stop⟩

end

def apply (d : Drift) (r : ByteRange) : ByteRange :=
  Id.run (d.applyBy (fun place delta => return movePlace place delta) r)

theorem apply_eq (d : Drift) (r : ByteRange) :
    d.apply r = ⟨if d.boundary ≤ r.start then movePlace r.start d.delta else r.start,
      if d.boundary < r.stop then movePlace r.stop d.delta else r.stop⟩ := rfl

end Drift

end RoutineSync
