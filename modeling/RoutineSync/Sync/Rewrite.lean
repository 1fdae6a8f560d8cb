import RoutineSync.Routine.Edit
import RoutineSync.Sync.Patch
import RoutineSync.Text.Class
import RoutineSync.Text.Lines
/-!
From an edit of the routine to edits of the text. Calls of steps that stay are patched, calls of
steps that go are deleted, with their line where nothing else is on it, and new calls are written
next to the nearest call that stays.
-/
set_option autoImplicit false

namespace RoutineSync

structure Rewrite where
  /-- In order, not overlapping, in places before the edits. -/
  edits : List TextEdit
  /-- Where the installed steps stand after the edits. -/
  sites : List (ActionId × CallSite)

namespace Rewrite

def siteOf? (r : Rewrite) (id : ActionId) : Option CallSite :=
  (r.sites.find? fun e => e.1 == id).map (·.2)

def continues (s old : Step) : Bool := old.id == s.id && old.kind == s.kind && old.site.isSome

/-- A call written by an edit, at an offset within the edit's text. -/
structure Placed where
  id : ActionId
  offset : Nat
  call : CallText

structure Part where
  edit : TextEdit
  placed : List Placed

def Part.isDeletion (p : Part) : Bool := p.edit.text.isEmpty && p.placed.isEmpty

/-- Writes calls one after another, each between `lead` and `trail`, after the text so far. -/
def writeRun (lead trail : Text) :
    List Step → Text → List Placed → Except WriteError (Text × List Placed)
  | [], text, placed => return (text, placed)
  | s :: ss, text, placed => do
    let call ← s.action.generate
    let text := text ++ lead
    writeRun lead trail ss (text ++ call.text ++ trail) (placed ++ [⟨s.id, text.size, call⟩])

def Part.le (p q : Part) : Bool :=
  p.edit.range.start < q.edit.range.start
    || (p.edit.range.start == q.edit.range.start && p.edit.range.stop ≤ q.edit.range.stop)

/-- Joins deletions that overlap: lines next to each other can claim the same newline. -/
def mergeDeletions : List Part → List Part
  | [] => []
  | p :: ps => go p ps
where
  go (last : Part) : List Part → List Part
    | [] => [last]
    | p :: ps =>
      if last.isDeletion && p.isDeletion && p.edit.range.start < last.edit.range.stop then
        let stop := max last.edit.range.stop p.edit.range.stop
        go { last with edit := { last.edit with range := ⟨last.edit.range.start, stop⟩ } } ps
      else last :: go p ps

def Placed.siteAt (w : Placed) (place : Nat) : CallSite :=
  ⟨place + w.offset, place + w.offset + w.call.text.size, w.call.text, w.call.params⟩

def patchParts (patched : List (List TextEdit × ActionId × CallSite)) : List Part :=
  patched.flatMap fun (edits, _, _) => edits.map fun e => ⟨e, []⟩

def arranged (parts : List Part) : List Part := mergeDeletions (parts.mergeSort Part.le)

end Rewrite

open Rewrite (Part Placed writeRun patchParts arranged)

def Access.indentation {m : Type → Type} [Monad m] (r : Access m) (place : Nat) : m Text := do
  let left ← r.slice (← r.lineStart place) place
  return left.takeWhile fun c => c == ' ' || c == '\t'

/-- Where a run of new steps is written, what goes before it, and what frames each call: before the
next call that stays, else after the previous one, else at the end of the text. -/
def Access.frame {m : Type → Type} [Monad m] (r : Access m) :
    Option CallSite → Option CallSite → m (Nat × Text × Text × Text)
  | some next, _ => return (next.start, [], [], '\n' :: (← r.indentation next.start))
  | none, some previous =>
    return (previous.stop, [], '\n' :: (← r.indentation previous.start), [])
  | none, none => do
    let start ← r.lineStart r.size
    return (r.size, if start ≠ r.size then ['\n'] else [], [], ['\n'])

def Access.insertion {m : Type → Type} [Monad m] (r : Access m) (run : List Step)
    (next previous : Option CallSite) : ExceptT WriteError m Part := do
  let (place, head, lead, trail) ← r.frame next previous
  let (text, placed) ← writeRun lead trail run head []
  return ⟨⟨⟨place, place⟩, text⟩, placed⟩

namespace Operations
variable {m : Type → Type} [Monad m] (o : Operations m)

def remap (r : Rewrite) (s : CallSite) : m CallSite := do
  let start ← TextEdit.landStartBy o.move r.edits s.start
  let stop ← TextEdit.landEndBy o.move r.edits s.stop
  return { s with start, stop }

/-- Pairs each installed step with the replaced step that goes on as it does. Pairs keep the order;
`slot` is the index of the first replaced step left. -/
def pairs : Nat → List Step → List Step → m (List (Option Nat))
  | _, [], _ => return []
  | slot, s :: ss, replaced =>
    match replaced.findIdx? (Rewrite.continues s) with
    | some i => return some (slot + i) :: (← pairs (slot + i + 1) ss (← o.rest replaced (i + 1)))
    | none => return none :: (← pairs slot ss replaced)

/-- The maximal runs of unpaired steps, each with the slots paired before and after it. The steps are
gone through from a position on, which can lie inside a run. -/
def runs (steps : List Step) (pairing : List (Option Nat)) :
    Nat → Bool → List Step → m (List (Option Nat × List Step × Option Nat))
  | _, _, [] => return []
  | position, inside, _ :: left => do
    if (← o.get? pairing position).join.isSome then runs steps pairing (position + 1) false left
    else if inside then runs steps pairing (position + 1) true left
    else
      let ahead ← o.rest pairing position
      let stop := position + ahead.findIdx Option.isSome
      let run ← o.range steps position (← o.sub stop position)
      let behind ← o.rest pairing stop
      let before ← o.range pairing 0 position
      return (before.reverse.findSome? id, run, behind.findSome? id)
        :: (← runs steps pairing (position + 1) true left)

/-- What to delete for a call that goes: its whole line when nothing else is on it. -/
def deletion (r : Access m) (s : CallSite) : m ByteRange := do
  let lineStart ← r.lineStart s.start
  let lineEnd ← r.lineEnd s.stop
  let left ← r.slice lineStart s.start
  let right ← r.slice s.stop lineEnd
  if !left.all Text.isBlank || !right.all Text.isBlank then return s.range
  else if lineEnd < r.size then return ⟨lineStart, lineEnd + 1⟩
  else if 0 < lineStart then return ⟨← o.sub lineStart 1, lineEnd⟩
  else return ⟨lineStart, lineEnd⟩

def removals (r : Access m) (pairing : List (Option Nat)) (replaced : List Step) : m (List Part) :=
  replaced.zipIdx.filterMapM fun (old, slot) =>
    if pairing.contains (some slot) then return none
    else
      match old.site with
      | none => return none
      | some site => return some ⟨⟨← o.deletion r site, []⟩, []⟩

def patching (replaced : List Step) (step : Step) :
    Option Nat → ExceptT WriteError m (Option (List TextEdit × ActionId × CallSite))
  | none => return none
  | some slot => do
    match ← o.get? replaced slot with
    | some ⟨_, before, some site⟩ =>
      let (edits, site) ← o.patchTo site before step.action
      return some (edits, step.id, site)
    | _ => return none

def siteOfSlot (replaced : List Step) : Option Nat → m (Option CallSite)
  | none => return none
  | some slot => return (← o.get? replaced slot).bind (·.site)

/-- Where the written calls stand after the edits; `shift` is how far the earlier edits moved the
text. -/
def placedSites (shift : Int) : List Part → m (List (ActionId × CallSite))
  | [] => return []
  | p :: ps => do
    let place ← o.move p.edit.range.start shift
    return p.placed.map (fun w => (w.id, w.siteAt place))
      ++ (← placedSites (shift + p.edit.delta) ps)

def patchedSites (edits : List TextEdit) (patched : List (List TextEdit × ActionId × CallSite)) :
    m (List (ActionId × CallSite)) :=
  patched.mapM fun (_, id, site) => do
    let start ← TextEdit.landStartBy o.move edits site.start
    return (id, { site with start, stop := start + site.text.size })

def synthesize (steps : List Step) (edit : RoutineEdit) (r : Access m) :
    ExceptT WriteError m Rewrite := do
  (checkRange edit.index edit.count steps.length).mapError WriteError.outOfRange
  let replaced ← o.range steps edit.index edit.count
  let fore ← o.range steps 0 edit.index
  let rear ← o.rest steps (edit.index + edit.count)
  let pairing ← o.pairs 0 edit.steps replaced
  let deletions ← o.removals r pairing replaced
  let patched ← (edit.steps.zip pairing).filterMapM fun (step, pair) =>
    o.patching replaced step pair
  let runs ← o.runs edit.steps pairing 0 false edit.steps
  let insertions ← runs.mapM fun (previous, run, next) => do
    r.insertion run ((← o.siteOfSlot replaced next).or (rear.findSome? (·.site)))
      ((← o.siteOfSlot replaced previous).or (fore.reverse.findSome? (·.site)))
  let parts := arranged (deletions ++ patchParts patched ++ insertions)
  let edits := parts.map (·.edit)
  return ⟨edits, (← o.placedSites 0 parts) ++ (← o.patchedSites edits patched)⟩

end Operations

namespace Rewrite

def remap (r : Rewrite) (s : CallSite) : CallSite := Id.run (Operations.plain.remap r s)

def pairs (slot : Nat) (steps replaced : List Step) : List (Option Nat) :=
  Id.run (Operations.plain.pairs slot steps replaced)

def deletion (source : Source) (s : CallSite) : ByteRange :=
  Id.run (Operations.plain.deletion source.access s)

def indentation (source : Source) (place : Nat) : Text := Id.run (source.access.indentation place)

def insertion (source : Source) (run : List Step) (next previous : Option CallSite) :
    Except WriteError Part :=
  (Access.insertion (m := Id) source.access run next previous).run.run

def placedSites (shift : Int) (parts : List Part) : List (ActionId × CallSite) :=
  Id.run (Operations.plain.placedSites shift parts)

def synthesize (steps : List Step) (edit : RoutineEdit) (source : Source) :
    Except WriteError Rewrite :=
  (Operations.plain.synthesize steps edit source.access).run.run

end Rewrite

end RoutineSync
