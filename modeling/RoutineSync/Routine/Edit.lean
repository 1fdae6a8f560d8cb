import RoutineSync.Action.Step
import RoutineSync.History.Command
/-!
Edits of a routine, the events that tell of them, and the reasons to refuse one.
-/
set_option autoImplicit false

namespace RoutineSync

/-- Replaces `count` steps at `index` by others. -/
structure RoutineEdit where
  index : Nat
  count : Nat
  steps : List Step
deriving DecidableEq

namespace RoutineEdit

def insert (index : Nat) (steps : List Step) : RoutineEdit := ⟨index, 0, steps⟩

def remove (index count : Nat) : RoutineEdit := ⟨index, count, []⟩

def isIdle (e : RoutineEdit) : Bool := e.count == 0 && e.steps.isEmpty

def ofSplice (s : Splice Step) : RoutineEdit := ⟨s.index, s.count, s.inserted⟩

end RoutineEdit

inductive Origin where
  | text | view | history
deriving DecidableEq, Repr

structure RoutineEvent where
  seq : Nat
  origin : Origin
  index : Nat
  removed : List Step
  inserted : List Step
deriving DecidableEq

inductive RoutineError where
  | removeStartPose
  | invalidStructure (index : Nat) (attempted : ActionKind)
  | duplicateId (id : ActionId)
  | outOfRange (range : RangeError)
  | empty
deriving DecidableEq

namespace RoutineError

/-- What the error says to people; `idText` shows an identity. -/
def message (idText : ActionId → String) : RoutineError → String
  | .removeStartPose => "the starting pose cannot be removed"
  | .invalidStructure index attempted =>
    s!"action {index} must establish a pose, but {attempted.name} does not"
  | .duplicateId id => s!"action id {idText id} is already in use"
  | .outOfRange range => range.message
  | .empty => "an auton needs at least one action"

end RoutineError

end RoutineSync
