import RoutineSync.Terminal.App
/-!
The keys of the front end. Steps are deleted and added only in their own pane, and a file is opened
only in the pane of the files.
-/
set_option autoImplicit false

namespace RoutineSync

inductive Key where
  | down | up | switchPane | openFile | deleteStep | addWait | undo | redo | write
deriving DecidableEq, Repr

namespace Key

def ofChar? : Char → Option Key
  | 'j' => some .down
  | 'k' => some .up
  | '\t' => some .switchPane
  | '\n' => some .openFile
  | 'd' => some .deleteStep
  | 'a' => some .addWait
  | 'u' => some .undo
  | 'r' => some .redo
  | 'w' => some .write
  | _ => none

end Key

namespace App

def writeFailed (a : App) : App :=
  let path := (a.opened.map fun o => o.path.spelling).getD ""
  { a with status := "Write failed: writing " ++ path }

def press (a : App) (t : FileTree) (key : Key) : Minting (App × FileTree) := do
  match key with
  | .down => return (a.moveSelection true, t)
  | .up => return (a.moveSelection false, t)
  | .switchPane => return (a.toggleFocus, t)
  | .openFile => if a.focus = .files then return (← a.openSelected t, t) else return (a, t)
  | .deleteStep => if a.focus = .actions then return (← a.deleteSelected, t) else return (a, t)
  | .addWait => if a.focus = .actions then return (← a.appendWait, t) else return (a, t)
  | .undo => return (← a.undo, t)
  | .redo => return (← a.redo, t)
  | .write =>
    match a.write t with
    | (.ok a, t) => return (a, t)
    | (.error _, t) => return (a.writeFailed, t)

end App

end RoutineSync
