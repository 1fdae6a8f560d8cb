import RoutineSync.Session.Message
import RoutineSync.Sync.Rescan
import RoutineSync.Sync.Rewrite
/-!
A session keeps the text of one document and its routine in step. Changes by the host are scanned
into the routine, edits by the view are written into the text. A change after which the text does
not start with a pose leaves the routine as it is; the session is then desynced until the text is
valid again.
-/
set_option autoImplicit false

namespace RoutineSync

structure Session where
  text : Text
  routine : Routine
  /-- Numbers of the session's edits that the host has not echoed yet, oldest first. -/
  pending : List Nat
  selection : Option Nat
  desynced : Bool

namespace Session

def steps (s : Session) : List Step := s.routine.steps

def snapshot (s : Session) : ViewMessage := .snapshot s.steps s.selection

/-- The first coordinate that no literal can write. -/
def unwritable? (pose : Pose) : Option String :=
  if !pose.x.isFinite then some "x"
  else if !pose.y.isFinite then some "y"
  else if !pose.heading.isFinite then some "heading"
  else none

def highlight? (s : Session) (index : Nat) (param : Option String) : Option ByteRange := do
  let site ← (← s.routine.get? index).site
  match param with
  | some name => site.paramRange? name
  | none => return site.range

def select (s : Session) (which : Selector) : Except SessionError (Session × Option ByteRange) := do
  let index ←
    match which with
    | .index index =>
      if index < s.routine.size then pure index
      else throw (.selectionOutOfRange index s.routine.size)
    | .id id =>
      match s.routine.indexOf? id with
      | some index => pure index
      | none => throw (.unknownAction id)
  let s := { s with selection := some index }
  return (s, s.highlight? index none)

def clearSelection (s : Session) : Session := { s with selection := none }

/-- The step whose call holds a place or ends there. -/
def stepAt? (s : Session) (place : Nat) : Option Nat :=
  s.steps.findIdx? fun step => step.site.any fun site => site.start ≤ place && place ≤ site.stop

end Session

namespace Operations
variable {m : Type → Type} [Monad m] (o : Operations m)

def start (text : Text) : StateT IdSupply m (Except SessionError Session) := do
  match Routine.ofSteps (← o.scanSteps text 0) with
  | .ok routine => return .ok ⟨text, routine, [], none, false⟩
  | .error e => return .error (.routine e)

/-- Where the selection goes with the identity of its step, through an event that has happened. -/
def follow (r : Routine) (event : RoutineEvent) (selected : Nat) : m (Option Nat) := do
  if selected < event.index then return some selected
  else if event.index + event.removed.length ≤ selected then
    return some (← o.sub (selected + event.inserted.length) event.removed.length)
  else
    let slot ← o.sub selected event.index
    return (event.removed[slot]?).bind fun old => r.indexOf? old.id

def followSelection (s : Session) (event : RoutineEvent) : m Session :=
  match s.selection with
  | none => return s
  | some selected => return { s with selection := ← o.follow s.routine event selected }

def editMessage (s : Session) (event : RoutineEvent) : m ViewMessage := do
  let stop := min (event.index + event.inserted.length) s.steps.length
  let start := min event.index stop
  let steps ← o.range s.steps start (← o.sub stop start)
  return .edit event.seq event.origin event.index event.removed.length steps

def checkChange (s : Session) (c : TextChange) : m (Except SessionError Unit) := do
  if ← o.fits c s.text then return .ok ()
  else return .error (.invalidChange ⟨c.offset, min c.stop maxPlace⟩ s.text.size)

/-- Carries out the plan for a change of the text, and tells the view if steps were replaced. -/
def takePlanned (s : Session) (plan : RescanPlan) :
    m (Except SessionError (Session × List ViewMessage)) :=
  match s.routine.validate plan.edit with
  | .error _ => return .ok ({ s with desynced := true }, [])
  | .ok () => do
    let drifted ← o.drift s.routine plan.driftFrom plan.drift
    match ← (o.editRoutine drifted plan.edit .text).run with
    | .error e => return .error (.routine e)
    | .ok (none, routine) => return .ok ({ s with routine }, [])
    | .ok (some event, routine) =>
      let s ← o.followSelection { s with routine } event
      return .ok (s, [← o.editMessage s event])

def takeChange (s : Session) (c : TextChange) :
    StateT IdSupply m (Except SessionError (Session × List ViewMessage)) := do
  let text ← o.change c s.text
  if s.desynced then return .ok ({ s with text }, [])
  let plan ← o.plan s.steps c (o.access s.text)
  o.takePlanned { s with text } plan

/-- Takes over changes one after another, up to the first that does not fit. -/
def takeChanges (s : Session) : List TextChange → List ViewMessage →
    StateT IdSupply m (Session × Except SessionError (List ViewMessage))
  | [], messages => return (s, .ok messages)
  | c :: cs, messages => do
    match ← o.checkChange s c with
    | .error e => return (s, .error e)
    | .ok () =>
      match ← o.takeChange s c with
      | .error e => return (s, .error e)
      | .ok (s, told) => takeChanges s cs (messages ++ told)

/-- Scans the whole text anew; the session is in step again if it starts with a pose. -/
def resync (s : Session) : StateT IdSupply m (Option Session) := do
  let scanned ← o.scanSteps s.text 0
  if !(scanned.head?.any fun step => step.kind.establishesPose) then return none
  let edit : RoutineEdit := ⟨0, s.routine.size, Rescan.inheritIds scanned s.steps⟩
  match ← (o.editRoutine s.routine edit .text).run with
  | .error _ => return none
  | .ok (_, routine) =>
    return some { s with
      routine
      desynced := false
      selection := s.selection.filter fun index => index < routine.size }

def conclude (s : Session) : Except SessionError (List ViewMessage) →
    StateT IdSupply m (Session × Except SessionError (List ViewMessage))
  | .error e => return (s, .error e)
  | .ok messages => do
    if !s.desynced then return (s, .ok messages)
    match ← o.resync s with
    | some s => return (s, .ok [s.snapshot])
    | none => return (s, .error .desynced)

/-- Takes over what the host did. The echo of an edit that is pending has been taken over before. -/
def notice (s : Session) (n : HostNotice) :
    StateT IdSupply m (Session × Except SessionError (List ViewMessage)) := do
  match n.echo.filter fun seq => s.pending.contains seq with
  | some seq => return ({ s with pending := s.pending.erase seq }, .ok [])
  | none =>
    let (s, taken) ← o.takeChanges s n.changes []
    o.conclude s taken

/-- Moves a step's call to where it stands after a rewriting. The call of a step that is installed
stands nowhere yet; its place is written afterwards. -/
def moveStep (r : Rewrite) (installed : List ActionId) (x : Step) : m Step :=
  match x.site with
  | none => return x
  | some site => do
    if x.id ∈ installed then return { x with site := some (r.remap site) }
    else return { x with site := some (← o.remap r site) }

def write (s : Session) (r : Rewrite) (installed : List ActionId) : m Session := do
  let text ← o.applyAll r.edits s.text
  let moved := s.routine.withSteps (← s.steps.mapM (o.moveStep r installed))
  return { s with
    text
    routine := r.sites.foldl (fun t (id, site) => (t.setSite? id (some site)).getD t) moved }

def commit (s : Session) (event : RoutineEvent) (r : Rewrite) :
    m (Session × HostEdit × ViewMessage) := do
  let s ← o.followSelection (← o.write s r (r.sites.map (·.1))) event
  let s := { s with pending := s.pending ++ [event.seq] }
  return (s, ⟨event.seq, r.edits⟩, ← o.editMessage s event)

/-- Writes an edit of the routine and then performs it: gives the session, and what to tell the host
and the view. -/
def perform (s : Session) (edit : RoutineEdit)
    (change : ExceptT RoutineError m (Option RoutineEvent × Routine)) :
    ExceptT SessionError m (Session × Option (HostEdit × ViewMessage)) := do
  let rewrite ← ExceptT.adapt .write (o.synthesize s.steps edit (o.access s.text))
  match ← ExceptT.adapt .routine change with
  | (none, _) => return (s, none)
  | (some event, routine) =>
    let (s, host, message) ← o.commit { s with routine } event rewrite
    return (s, some (host, message))

def edit (s : Session) (e : RoutineEdit) :
    ExceptT SessionError m (Session × Option (HostEdit × ViewMessage)) := do
  if s.desynced then throw .desynced
  (s.routine.validate e).mapError SessionError.routine
  if e.isIdle then return (s, none)
  o.perform s e (o.editRoutine s.routine e .view)

def revisit (d : Direction) (s : Session) :
    ExceptT SessionError m (Session × Option (HostEdit × ViewMessage)) := do
  if s.desynced then throw .desynced
  match s.routine.peek d with
  | none => return (s, none)
  | some e => o.perform s e (o.retrace d s.routine)

/-- Moves the starting pose, patching its call in place. This is not journaled. -/
def setStartPose (s : Session) (pose : Pose) :
    m (Session × Except SessionError (Option HostEdit)) :=
  if s.desynced then return (s, .error .desynced)
  else
    match s.routine.get? 0 with
    | none => return (s, .error (.routine .empty))
    | some before =>
      match Session.unwritable? pose with
      | some param => return (s, .error (.write (.invalidValue .setPose param)))
      | none =>
        match s.routine.setStartPose pose with
        | .error e => return (s, .error (.routine e))
        | .ok (_, routine) =>
          let s := { s with routine }
          match before.site, routine.get? 0 with
          | none, _ => return (s, .ok none)
          | some _, none => return (s, .error (.routine .empty))
          | some site, some after => do
            match ← (o.patchTo site before.action after.action).run with
            | .error e => return (s, .error (.write e))
            | .ok ([], _) => return (s, .ok none)
            | .ok (edits, site) =>
              let s ← o.write s ⟨edits, [(before.id, site)]⟩ []
              let (seq, routine) := s.routine.nextSeq
              return ({ s with routine, pending := s.pending ++ [seq] }, .ok (some ⟨seq, edits⟩))

end Operations

namespace Session

def start (text : Text) : Minting (Except SessionError Session) := Operations.plain.start text

def followSelection (s : Session) (event : RoutineEvent) : Session :=
  Id.run (Operations.plain.followSelection s event)

def editMessage (s : Session) (event : RoutineEvent) : ViewMessage :=
  Id.run (Operations.plain.editMessage s event)

def checkChange (s : Session) (c : TextChange) : Except SessionError Unit :=
  Id.run (Operations.plain.checkChange s c)

def takePlanned (s : Session) (plan : RescanPlan) :
    Except SessionError (Session × List ViewMessage) :=
  Id.run (Operations.plain.takePlanned s plan)

def takeChange (s : Session) (c : TextChange) :
    Minting (Except SessionError (Session × List ViewMessage)) :=
  Operations.plain.takeChange s c

def takeChanges (s : Session) (cs : List TextChange) (messages : List ViewMessage) :
    Minting (Session × Except SessionError (List ViewMessage)) :=
  Operations.plain.takeChanges s cs messages

def conclude (s : Session) (taken : Except SessionError (List ViewMessage)) :
    Minting (Session × Except SessionError (List ViewMessage)) :=
  Operations.plain.conclude s taken

def resync (s : Session) : Minting (Option Session) := Operations.plain.resync s

def notice (s : Session) (n : HostNotice) :
    Minting (Session × Except SessionError (List ViewMessage)) :=
  Operations.plain.notice s n

def write (s : Session) (r : Rewrite) : Session := Id.run (Operations.plain.write s r [])

def commit (s : Session) (event : RoutineEvent) (r : Rewrite) : Session × HostEdit × ViewMessage :=
  Id.run (Operations.plain.commit s event r)

abbrev Outcome := Except SessionError (Session × Option (HostEdit × ViewMessage))

def perform (s : Session) (edit : RoutineEdit)
    (change : Routine → Except RoutineError (Option RoutineEvent × Routine)) : Outcome :=
  (Operations.plain.perform s edit (liftM (change s.routine))).run.run

def edit (s : Session) (e : RoutineEdit) : Outcome := (Operations.plain.edit s e).run.run

def revisit (d : Direction) (s : Session) : Outcome := (Operations.plain.revisit d s).run.run

def undo (s : Session) : Outcome := s.revisit .back

def redo (s : Session) : Outcome := s.revisit .forth

def setStartPose (s : Session) (pose : Pose) : Session × Except SessionError (Option HostEdit) :=
  Id.run (Operations.plain.setStartPose s pose)

end Session

end RoutineSync
