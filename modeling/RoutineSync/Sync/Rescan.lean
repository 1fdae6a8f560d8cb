import RoutineSync.Routine.Basic
import RoutineSync.Scan
import RoutineSync.Text.Lines
/-!
From a change of the text to an edit of the routine. Only the surroundings of the change are scanned
again: the calls that it touches, and the text up to the next untouched call on either side, which
can hold parts of a call that the change completes. What stands behind the change keeps its identity
and drifts.
-/
set_option autoImplicit false

namespace RoutineSync

/-- What a change of the text asks for: first the drift of the steps from `driftFrom` on, then the
edit. -/
structure RescanPlan where
  edit : RoutineEdit
  driftFrom : Nat
  drift : Drift
  /-- The part of the new text that was scanned. -/
  scanned : ByteRange

namespace Rescan

def written (steps : List Step) : List (Nat × CallSite) :=
  (steps.zipIdx).filterMap fun (s, i) => s.site.map fun site => (i, site)

/-- Whether a call and a change share a byte or touch. -/
def touches (c : TextChange) (s : CallSite) : Bool :=
  max s.start c.offset ≤ min s.stop c.stop

/-- The part of a text of `size` bytes that has to be scanned again: from the last untouched call
before the change to the first one after it. -/
def affected (steps : List Step) (c : TextChange) (size : Nat) : ByteRange where
  start :=
    match ((written steps).filter fun (_, s) => s.stop < c.offset).getLast? with
    | some (_, s) => s.stop
    | none => 0
  stop :=
    match (written steps).find? fun (_, s) => c.stop < s.start with
    | some (_, s) => s.start
    | none => size

/-- Gives each scanned step the identity of the first replaced step of its kind that no earlier one
has taken. -/
def inheritIds : List Step → List Step → List Step
  | [], _ => []
  | s :: ss, replaced =>
    match replaced.findIdx? fun old => old.kind == s.kind with
    | some i =>
      { s with id := (replaced[i]?.map (·.id)).getD s.id } :: inheritIds ss (replaced.eraseIdx i)
    | none => s :: inheritIds ss replaced

theorem map_inheritIds {α : Type} (f : Step → α) (hf : ∀ s id, f { s with id } = f s)
    (steps replaced : List Step) : (inheritIds steps replaced).map f = steps.map f := by
  fun_induction inheritIds steps replaced <;> simp_all

end Rescan

def Access.fragment {m : Type → Type} [Monad m] (r : Access m) (steps : List Step)
    (c : TextChange) : m Text := do
  let part := Rescan.affected steps c r.size
  let lead ← r.slice part.start c.offset
  let trail ← r.slice c.stop part.stop
  return lead ++ c.text ++ trail

namespace Operations
variable {m : Type → Type} [Monad m] (o : Operations m) (steps : List Step) (c : TextChange)

/-- The steps that a change touches lie in this range of the list; an empty range stands where new
steps belong. -/
def touched : m (Nat × Nat) :=
  let hit := (Rescan.written steps).filter fun (_, s) => Rescan.touches c s
  match hit.head?, hit.getLast? with
  | some (first, _), some (last, _) => return (first, (← o.sub last first) + 1)
  | _, _ =>
    match ((Rescan.written steps).filter fun (_, s) => s.stop < c.offset).getLast? with
    | some (before, _) => return (before + 1, 0)
    | none => return (0, 0)

def plan (r : Access m) : StateT IdSupply m RescanPlan := do
  let part := Rescan.affected steps c r.size
  let fresh ← r.fragment steps c
  let scanned ← o.scanSteps fresh part.start
  let (index, count) ← o.touched steps c
  let replaced ← o.range steps index count
  return {
    edit := ⟨index, count, Rescan.inheritIds scanned replaced⟩
    driftFrom := index + count
    drift := ⟨c.stop, c.delta⟩
    scanned := ⟨part.start, part.start + fresh.size⟩ }

end Operations

namespace Rescan

def planOf (steps : List Step) (c : TextChange) (source : Source) : Minting RescanPlan :=
  Operations.plain.plan steps c source.access

def plan (steps : List Step) (c : TextChange) (t : Text) : Minting RescanPlan :=
  planOf steps c (.byCount t)

end Rescan

end RoutineSync
