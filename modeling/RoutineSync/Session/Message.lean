import RoutineSync.Routine.Basic
import RoutineSync.Sync.Patch
/-!
What a session exchanges with the host of its text and with the view of its routine.
-/
set_option autoImplicit false

namespace RoutineSync

/-- Changes that the host made, perhaps by carrying out an edit of the session. -/
structure HostNotice where
  /-- Number of the edit that was carried out. -/
  echo : Option Nat
  changes : List TextChange
deriving DecidableEq

/-- Edits that the host has to make at once, in order and not overlapping. -/
structure HostEdit where
  seq : Nat
  edits : List TextEdit
deriving DecidableEq

inductive ViewMessage where
  | snapshot (steps : List Step) (selection : Option Nat)
  | edit (seq : Nat) (origin : Origin) (index count : Nat) (steps : List Step)
deriving DecidableEq

inductive Selector where
  | index (index : Nat)
  | id (id : ActionId)
deriving DecidableEq

inductive SessionError where
  | routine (error : RoutineError)
  | write (error : WriteError)
  | desynced
  | invalidChange (range : ByteRange) (size : Nat)
  | unknownAction (id : ActionId)
  | selectionOutOfRange (index len : Nat)
deriving DecidableEq

namespace SessionError

def message (idText : ActionId → String) : SessionError → String
  | .routine error => error.message idText
  | .write error => error.message
  | .desynced => "document no longer starts with a setPose call"
  | .invalidChange range size =>
    s!"change {range.start}..{range.stop} does not fit a document of {size} bytes"
  | .unknownAction id => s!"no action with id {idText id}"
  | .selectionOutOfRange index len => s!"action index {index} is outside {len} actions"

end SessionError

end RoutineSync
