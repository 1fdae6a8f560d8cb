import RoutineSync.Text.Class
import RoutineSync.Text.Columns
/-!
Rows of cells on a terminal. A cluster is drawn into one cell and hides the next ones if it takes
more than one column; a cluster without columns is drawn into the cell before.
-/
set_option autoImplicit false

namespace RoutineSync

/-- The cells of a row, each with what is drawn in it. -/
abbrev Cells := List Text

namespace Cells

def blank (count : Nat) : Cells := List.replicate count [' ']

def isControl (c : Char) : Bool := c.toNat < 0x20 || (0x7F ≤ c.toNat && c.toNat < 0xA0)

def drawable (t : Text) : List Text := (Text.clusters t).filter fun g => !g.any isControl

/-- Cells that a cluster takes. The two half-width sound marks take one more each than their columns.
-/
def width (cluster : Text) : Nat :=
  Text.columns cluster + cluster.countP fun c => c = '\uff9e' || c = '\uff9f'

/-- Cells from the start of a text up to what comes behind it, or to its own end if that is farther.
-/
def extent (t : Text) : Nat :=
  max (Text.columns t) ((drawable t).foldr (fun g n => width g + n) 0)

/-- Puts a text into a cell and blanks into the cells behind it that come before `stop`. -/
def write (row : Cells) (place stop : Nat) (t : Text) : Cells :=
  row.mapIdx fun i cell => if i = place then t else if place < i && i < stop then [' '] else cell

@[simp] theorem length_write (row : Cells) (place stop : Nat) (t : Text) :
    (row.write place stop t).length = row.length := by simp [write]

/-- Draws clusters at a place of the cells from `start` to `stop`, up to the first that does not
fit. A cluster without columns is drawn behind what is in the cell before, and at `start` all are
drawn into one cell until one of them has columns. -/
def drawClusters (start stop : Nat) : Nat → Cells → List Text → Cells
  | _, row, [] => row
  | place, row, g :: gs =>
    let next := place + width g
    if stop < next then row
    else
      let joined := width g = 0 || place = start
      let here := if width g = 0 && place ≠ start then place - 1 else place
      let kept := if joined then row[here]?.getD [] else []
      drawClusters start stop next (row.write here next (kept ++ g)) gs

def drawSpan (row : Cells) (start stop : Nat) (t : Text) : Cells :=
  match drawable t with
  | [] => row
  | g :: gs =>
    if stop < start + width g then row
    else drawClusters start stop start (row.write start start []) (g :: gs)

@[simp] theorem length_drawClusters (start stop place : Nat) (row : Cells) (gs : List Text) :
    (drawClusters start stop place row gs).length = row.length := by
  induction gs generalizing place row with
  | nil => rfl
  | cons g gs ih =>
    rw [drawClusters]
    split
    · rfl
    · rw [ih, length_write]

@[simp] theorem length_drawSpan (row : Cells) (start stop : Nat) (t : Text) :
    (row.drawSpan start stop t).length = row.length := by
  rw [drawSpan]
  split
  · rfl
  · split <;> simp

def drawSpans (stop : Nat) : Nat → Cells → List Text → Cells
  | _, row, [] => row
  | start, row, t :: ts =>
    let count := Text.columns t
    if count = 0 || stop ≤ start then drawSpans stop start row ts
    else drawSpans stop (start + count) (row.drawSpan start stop t) ts

@[simp] theorem length_drawSpans (stop start : Nat) (row : Cells) (ts : List Text) :
    (drawSpans stop start row ts).length = row.length := by
  induction ts generalizing start row with
  | nil => rfl
  | cons t ts ih => rw [drawSpans]; split <;> simp [ih]

/-- The clusters that fit a number of columns, but for those that are too wide for all of them. -/
def fitting (room : Nat) : Nat → List Text → List Text
  | _, [] => []
  | taken, g :: gs =>
    let count := Text.columns g
    if room < count then fitting room taken gs
    else if room < taken + count then []
    else g :: fitting room (taken + count) gs

def layOut : Nat → Cells → List Text → Cells
  | _, row, [] => row
  | place, row, g :: gs =>
    if width g = 0 then layOut place row gs
    else layOut (place + width g) (row.write place (place + width g) g) gs

def ofText (count : Nat) (t : Text) : Cells :=
  layOut 0 (blank count) (fitting count 0 (drawable t))

/-- What becomes of a cell by the one before it. -/
inductive Cover where
  | free
  | drawn
  | hidden
deriving DecidableEq

/-- What a cell does to the next one. A wide cluster hides it, unless a selector asked for a picture:
some terminals leave the old contents there, so the cell is drawn over. -/
def Cover.next (cover : Cover) (cell : Text) : Cover :=
  if width cell ≤ 1 then .free
  else if cover = .free && cell.contains '\ufe0f' then .drawn
  else .hidden

def seenFrom : Cover → Cells → Text
  | _, [] => []
  | cover, cell :: cells =>
    (if cover = .hidden then [' '] else cell) ++ seenFrom (cover.next cell) cells

def seen (row : Cells) : Text := seenFrom .free row

end Cells

end RoutineSync
