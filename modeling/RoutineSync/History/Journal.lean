import RoutineSync.History.Command
/-!
A list whose changes are journaled, so that they can be undone and redone.
-/
set_option autoImplicit false

namespace RoutineSync

/-- A list with the commands that led to it and those undone since, the latest first. -/
structure Journal (α : Type) where
  items : List α
  done : List (Command α)
  undone : List (Command α)

namespace Journal
variable {α : Type}

def ofList (items : List α) : Journal α := ⟨items, [], []⟩

/-- The commands to come in a direction, the next one first. -/
def ahead (j : Journal α) : Direction → List (Command α)
  | .back => j.done
  | .forth => j.undone

/-- The journal behind a step that has turned the next command into `c`. -/
def passed (j : Journal α) (c : Command α) (items : List α) : Direction → Journal α
  | .back => ⟨items, j.done.tail, c :: j.undone⟩
  | .forth => ⟨items, c :: j.done, j.undone.tail⟩

end Journal

namespace Operations
variable {α : Type} {m : Type → Type} [Monad m] (o : Operations m)

/-- Applies a new command; what was undone before can no longer be redone. -/
def execute (j : Journal α) (c : Command α) : ExceptT RangeError m (Command α × Journal α) := do
  let (c, items) ← o.apply j.items c
  return (c, ⟨items, c :: j.done, []⟩)

/-- Undoes the latest command or applies the one undone last, if there is one, and tells the splice
that this was. -/
def walk (d : Direction) (j : Journal α) :
    ExceptT RangeError m (Option (Splice α) × Journal α) :=
  match (j.ahead d).head? with
  | none => return (none, j)
  | some c => do
    let (stepped, items) ← o.step j.items d c
    return (some (c.splice d j.items.length), j.passed stepped items d)

end Operations

namespace Journal
variable {α : Type}

def execute (j : Journal α) (c : Command α) : Except RangeError (Command α × Journal α) :=
  (Operations.plain.execute j c).run.run

def append (j : Journal α) (elements : List α) : Except RangeError (Command α × Journal α) :=
  j.execute (.append elements)

def insert (j : Journal α) (index : Nat) (elements : List α) :
    Except RangeError (Command α × Journal α) :=
  j.execute (.insert index elements)

def replace (j : Journal α) (index count : Nat) (elements : List α) :
    Except RangeError (Command α × Journal α) :=
  j.execute (.replace index count elements [])

def remove (j : Journal α) (index count : Nat) : Except RangeError (Command α × Journal α) :=
  j.execute (.remove index count [])

def walk (d : Direction) (j : Journal α) : Except RangeError (Option (Splice α) × Journal α) :=
  (Operations.plain.walk d j).run.run

def undo (j : Journal α) : Except RangeError (Option (Splice α) × Journal α) := j.walk .back

def redo (j : Journal α) : Except RangeError (Option (Splice α) × Journal α) := j.walk .forth

def peek (d : Direction) (j : Journal α) : Option (Splice α) :=
  (j.ahead d).head?.map (·.splice d j.items.length)

def peekUndo (j : Journal α) : Option (Splice α) := j.peek .back

def peekRedo (j : Journal α) : Option (Splice α) := j.peek .forth

def canUndo (j : Journal α) : Bool := !j.done.isEmpty

def canRedo (j : Journal α) : Bool := !j.undone.isEmpty

def size (j : Journal α) : Nat := j.items.length

def range (j : Journal α) (index count : Nat) : Except RangeError (List α) := do
  checkRange index count j.items.length
  return (j.items.drop index).take count

def get (j : Journal α) (index : Nat) : Except RangeError (List α) := j.range index 1

/-- Rewrites every element in place, outside the journal. -/
def mapItems (j : Journal α) (f : Nat → α → α) : Journal α :=
  { j with items := j.items.mapIdx f }

def set (j : Journal α) (index : Nat) (a : α) : Journal α := { j with items := j.items.set index a }

end Journal

end RoutineSync
