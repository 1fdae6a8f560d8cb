import RoutineSync.Project.Config
import RoutineSync.Session.Basic
import RoutineSync.Wire.Identity
/-!
The front end on a terminal: a list of files, and the steps of the file that is open. Its edits go
to the session and from there into the text, which is kept until it is written.
-/
set_option autoImplicit false

namespace RoutineSync

inductive Pane where
  | files | actions
deriving DecidableEq, Repr

structure OpenFile where
  path : RelativePath
  session : Session
  dirty : Bool

structure App where
  project : String
  catalog : Catalog
  files : List RelativePath
  selectedFile : Option Nat
  selectedAction : Option Nat
  focus : Pane
  opened : Option OpenFile
  status : String

inductive StartError where
  | config (error : ConfigError)
  | file (error : FileError)

namespace App

def start (t : FileTree) (c : Config) : Minting (Except StartError App) := do
  match c.routineFiles t with
  | .error e => return .error (.config e)
  | .ok paths =>
    match ← t.catalog c.project paths with
    | .error e => return .error (.file e)
    | .ok catalog =>
      let files := catalog.files.map (·.path)
      return .ok {
        project := c.project
        catalog
        files
        selectedFile := if files.isEmpty then none else some 0
        selectedAction := none
        focus := .files
        opened := none
        status := s!"{files.length} auton file(s)" }

def idShown (id : ActionId) : String := String.ofList (Wire.idText id)

def actionCount (a : App) : Nat := (a.opened.map fun o => o.session.steps.length).getD 0

/-- The next or the previous index in a list, around its ends. -/
def moved (forward : Bool) (selected : Option Nat) (len : Nat) : Nat :=
  match selected with
  | none => 0
  | some i => if forward then (i + 1) % len else if i = 0 then len - 1 else i - 1

def selectStep (a : App) (index : Nat) : App :=
  match a.opened with
  | none => a
  | some o =>
    match o.session.select (.index index) with
    | .ok (session, _) => { a with opened := some { o with session } }
    | .error e => { a with status := "Selection failed: " ++ e.message idShown }

def moveSelection (a : App) (forward : Bool) : App :=
  match a.focus with
  | .files =>
    if a.files.isEmpty then a
    else { a with selectedFile := some (moved forward a.selectedFile a.files.length) }
  | .actions =>
    if a.actionCount = 0 then a
    else
      let index := moved forward a.selectedAction a.actionCount
      { a with selectedAction := some index }.selectStep index

/-- Moves the focus to the other pane; steps need an open file. -/
def toggleFocus (a : App) : App :=
  { a with focus := if a.focus = .files ∧ a.opened.isSome then .actions else .files }

/-- Opens the selected file, unless that would lose edits. -/
def openSelected (a : App) (t : FileTree) : Minting App := do
  if a.opened.any (·.dirty) then
    return { a with status := "Unsaved changes, press w to write first" }
  match a.selectedFile.bind fun index => a.files[index]? with
  | none => return a
  | some path =>
    match t.readSource a.project path with
    | .error e => return { a with status := "Error reading file: " ++ e.message }
    | .ok text =>
      match ← Session.start text with
      | .error e => return { a with status := "Error reading auton: " ++ e.message idShown }
      | .ok session =>
        let count := session.steps.length
        return { a with
          status := s!"{path.spelling}: {count} action(s)"
          selectedAction := if count = 0 then none else some 0
          opened := some ⟨path, session, false⟩
          focus := .actions }

def clampSelection (a : App) : App :=
  { a with selectedAction :=
      if a.actionCount = 0 then none
      else a.selectedAction.map fun index => min index (a.actionCount - 1) }

/-- Makes an edit, and reports it back to the session as the host that carried it out. -/
def apply (a : App) (edit : Session → Session.Outcome) : Minting App := do
  match a.opened with
  | none => return a
  | some o =>
    match edit o.session with
    | .error e =>
      return { a with status := "Edit rejected: " ++ e.message idShown }.clampSelection
    | .ok (session, none) =>
      return { a with opened := some { o with session }, status := "Nothing to do" }.clampSelection
    | .ok (session, some (host, _)) =>
      match ← session.notice ⟨some host.seq, TextEdit.toChanges host.edits⟩ with
      | (session, .error e) =>
        return { a with
          opened := some { o with session }
          status := "Echo failed: " ++ e.message idShown }
      | (session, .ok _) =>
        return { a with
          opened := some { o with session, dirty := true }
          status := s!"{host.edits.length} text edit(s) applied" }.clampSelection

def deleteSelected (a : App) : Minting App :=
  match a.selectedAction with
  | none => return a
  | some index => a.apply fun s => s.edit (.remove index 1)

/-- Length of the wait that is added, in milliseconds. -/
def defaultWait : Int64 := 250

/-- Adds a wait after the selected step, or at the end, and selects it. -/
def appendWait (a : App) : Minting App := do
  let index := (a.selectedAction.map (· + 1)).getD a.actionCount
  let wait ← Step.unwritten (.wait defaultWait)
  let a ← a.apply fun s => s.edit (.insert index [wait])
  return if index < a.actionCount then { a with selectedAction := some index } else a

def undo (a : App) : Minting App := a.apply Session.undo

def redo (a : App) : Minting App := a.apply Session.redo

def write (a : App) (t : FileTree) : Except FileError App × FileTree :=
  match a.opened with
  | none => (.ok a, t)
  | some o =>
    match t.writeSource a.project o.path o.session.text with
    | (.error e, t) => (.error e, t)
    | (.ok (), t) =>
      (.ok { a with
        catalog := a.catalog.setFile o.path o.session.steps
        opened := some { o with dirty := false }
        status := "Wrote " ++ o.path.spelling }, t)

end App

end RoutineSync
