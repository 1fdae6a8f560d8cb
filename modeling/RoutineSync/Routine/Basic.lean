import RoutineSync.Routine.Edit
import RoutineSync.History.Journal
import RoutineSync.Text.Change
/-!
A routine: steps of which the first sets the starting pose and no two have one identity. Edits that
would break this are refused. Every edit is journaled and told to the subscribers.
-/
set_option autoImplicit false

namespace RoutineSync

structure Delivery where
  subscriber : Nat
  event : RoutineEvent
deriving DecidableEq

structure Routine where
  journal : Journal Step
  /-- Number of the latest event. -/
  seq : Nat
  subscribers : List Nat
  nextSubscriber : Nat
  outbox : List Delivery

namespace Routine

/-- The first identity that is taken or occurs a second time. -/
def firstDuplicate? : List ActionId → List Step → Option ActionId
  | _, [] => none
  | taken, s :: ss => if s.id ∈ taken then some s.id else firstDuplicate? (s.id :: taken) ss

theorem firstDuplicate?_eq_none_iff {taken : List ActionId} {steps : List Step} :
    firstDuplicate? taken steps = none ↔
      (steps.map (·.id)).Nodup ∧ ∀ s ∈ steps, s.id ∉ taken := by
  induction steps generalizing taken with
  | nil => simp [firstDuplicate?]
  | cons s ss ih =>
    by_cases h : s.id ∈ taken
    · simp [firstDuplicate?, h]
    · simp only [firstDuplicate?, h, if_false, ih, List.map_cons, List.nodup_cons, List.mem_map,
        List.mem_cons, not_or, forall_eq_or_imp]
      grind

def checkStart : List Step → Except RoutineError Unit
  | [] => .error .empty
  | s :: _ =>
    if s.kind.establishesPose then .ok () else .error (.invalidStructure 0 s.kind)

theorem checkStart_eq_ok_iff {steps : List Step} :
    checkStart steps = .ok () ↔ ∃ s ∈ steps.head?, s.kind.establishesPose := by
  cases steps with
  | nil => simp [checkStart]
  | cons s ss => by_cases h : s.kind.establishesPose <;> simp [checkStart, h]

def checkIds (taken : List ActionId) (steps : List Step) : Except RoutineError Unit :=
  match firstDuplicate? taken steps with
  | some id => .error (.duplicateId id)
  | none => .ok ()

theorem checkIds_eq_ok_iff {taken : List ActionId} {steps : List Step} :
    checkIds taken steps = .ok () ↔
      (steps.map (·.id)).Nodup ∧ ∀ s ∈ steps, s.id ∉ taken := by
  rw [← firstDuplicate?_eq_none_iff, checkIds]
  cases firstDuplicate? taken steps <;> simp

def ofSteps (steps : List Step) : Except RoutineError Routine := do
  checkStart steps
  checkIds [] steps
  return ⟨.ofList steps, 0, [], 0, []⟩

/-- A routine that stands in no text and only sets its starting pose. -/
def starting (pose : Pose) : Minting Routine := do
  return ⟨.ofList [← Step.unwritten (.setPose pose none)], 0, [], 0, []⟩

def steps (r : Routine) : List Step := r.journal.items

/-- The routine with its steps rewritten outside the history. -/
def withSteps (r : Routine) (steps : List Step) : Routine :=
  { r with journal := { r.journal with items := steps } }

def size (r : Routine) : Nat := r.steps.length

def get? (r : Routine) (index : Nat) : Option Step := r.steps[index]?

def indexOf? (r : Routine) (id : ActionId) : Option Nat := r.steps.findIdx? fun s => s.id == id

def startPose? (r : Routine) : Option Pose := r.steps.head?.bind fun s => s.action.pose?

def validate (r : Routine) (e : RoutineEdit) : Except RoutineError Unit := do
  (checkRange e.index e.count r.size).mapError .outOfRange
  if e.index = 0 ∧ !e.isIdle then
    match e.steps with
    | [] => throw .removeStartPose
    | s :: _ => if !s.kind.establishesPose then throw (.invalidStructure 0 s.kind)
  let outside := r.steps.take e.index ++ r.steps.drop (e.index + e.count)
  checkIds (outside.map (·.id)) e.steps

def nextSeq (r : Routine) : Nat × Routine := (r.seq + 1, { r with seq := r.seq + 1 })

def emit (r : Routine) (event : RoutineEvent) : Routine :=
  { r with outbox := r.outbox ++ r.subscribers.map fun subscriber => ⟨subscriber, event⟩ }

def announce (r : Routine) (origin : Origin) (index : Nat) (removed inserted : List Step) :
    RoutineEvent × Routine :=
  let (seq, r) := r.nextSeq
  let event : RoutineEvent := ⟨seq, origin, index, removed, inserted⟩
  (event, r.emit event)

def commandOf (e : RoutineEdit) : Command Step :=
  if e.count = 0 then .insert e.index e.steps
  else if e.steps.isEmpty then .remove e.index e.count []
  else .replace e.index e.count e.steps []

def peek (d : Direction) (r : Routine) : Option RoutineEdit := (r.journal.peek d).map .ofSplice

def peekUndo (r : Routine) : Option RoutineEdit := r.peek .back

def peekRedo (r : Routine) : Option RoutineEdit := r.peek .forth

end Routine

namespace Operations
variable {m : Type → Type} [Monad m] (o : Operations m)

/-- Makes an edit. An edit that does nothing is neither journaled nor told. -/
def editRoutine (r : Routine) (e : RoutineEdit) (origin : Origin) :
    ExceptT RoutineError m (Option RoutineEvent × Routine) := do
  r.validate e
  if e.isIdle then return (none, r)
  let removed ← o.range r.steps e.index e.count
  let (_, journal) ← ExceptT.adapt .outOfRange (o.execute r.journal (Routine.commandOf e))
  let (event, r) := { r with journal }.announce origin e.index removed e.steps
  return (some event, r)

/-- Makes a step through the history and tells of it. What was inserted is read off the list, since
undoing can bring back newer copies than the splice names. -/
def retrace (d : Direction) (r : Routine) :
    ExceptT RoutineError m (Option RoutineEvent × Routine) :=
  match r.peek d with
  | none => return (none, r)
  | some e => do
    let removed ← o.range r.steps e.index e.count
    match ← ExceptT.adapt .outOfRange (o.walk d r.journal) with
    | (none, _) => return (none, r)
    | (some splice, journal) =>
      let inserted ← o.range journal.items splice.index splice.inserted.length
      let (event, r) := { r with journal }.announce .history splice.index removed inserted
      return (some event, r)

def driftStep (d : Drift) (s : Step) : m Step :=
  match s.site with
  | none => return s
  | some site => do
    let range ← d.applyBy o.move site.range
    return { s with site := some { site with start := range.start, stop := range.stop } }

def drift (r : Routine) (fromIndex : Nat) (d : Drift) : m Routine := do
  let moved ← (r.steps.drop fromIndex).mapM (o.driftStep d)
  return r.withSteps (r.steps.take fromIndex ++ moved)

end Operations

namespace Routine

def edit (r : Routine) (e : RoutineEdit) (origin : Origin) :
    Except RoutineError (Option RoutineEvent × Routine) :=
  (Operations.plain.editRoutine r e origin).run.run

def retrace (d : Direction) (r : Routine) :
    Except RoutineError (Option RoutineEvent × Routine) :=
  (Operations.plain.retrace d r).run.run

def undo (r : Routine) : Except RoutineError (Option RoutineEvent × Routine) := r.retrace .back

def redo (r : Routine) : Except RoutineError (Option RoutineEvent × Routine) := r.retrace .forth

def drift (r : Routine) (fromIndex : Nat) (d : Drift) : Routine :=
  Id.run (Operations.plain.drift r fromIndex d)

def append (r : Routine) (steps : List Step) (origin : Origin) :
    Except RoutineError (Option RoutineEvent × Routine) :=
  r.edit (.insert r.size steps) origin

/-- Moves the starting pose in place and gives the previous one. The first step keeps its identity;
nothing is journaled or told. -/
def setStartPose (r : Routine) (pose : Pose) : Except RoutineError (Pose × Routine) :=
  match r.steps with
  | [] => .error .empty
  | s :: _ =>
    match s.action with
    | .setPose previous radians =>
      let moved : Step := { s with action := .setPose pose radians }
      .ok (previous, { r with journal := r.journal.set 0 moved })
    | _ => .error (.invalidStructure 0 s.kind)

def mapSites (r : Routine) (fromIndex : Nat) (f : CallSite → CallSite) : Routine :=
  { r with
    journal := r.journal.mapItems fun i s =>
      if fromIndex ≤ i then { s with site := s.site.map f } else s }

def setSite? (r : Routine) (id : ActionId) (site : Option CallSite) : Option Routine :=
  (r.indexOf? id).map fun index =>
    { r with journal := r.journal.mapItems fun i s => if i = index then { s with site } else s }

def subscribe (r : Routine) : Nat × Routine :=
  (r.nextSubscriber,
    { r with
      subscribers := r.subscribers ++ [r.nextSubscriber]
      nextSubscriber := r.nextSubscriber + 1 })

/-- Whether the subscriber was known; it is told nothing from now on. -/
def unsubscribe (r : Routine) (subscriber : Nat) : Bool × Routine :=
  (r.subscribers.contains subscriber,
    { r with subscribers := r.subscribers.filter fun s => s != subscriber })

def canUndo (r : Routine) : Bool := r.journal.canUndo

def canRedo (r : Routine) : Bool := r.journal.canRedo

end Routine

end RoutineSync
