import RoutineSync.Action.Step
import RoutineSync.Call.Matcher
import RoutineSync.Operations
/-!
Scanning a text for the complete calls of the library.
-/
set_option autoImplicit false

namespace RoutineSync

structure ScannedCall where
  action : Action
  site : CallSite

namespace ScannedCall

/-- The call found at a place, if its arguments make up an action. -/
def ofMatch? (kind : ActionKind) (place : Nat) (m : CallMatch) : Option ScannedCall := do
  let (values, ranges) ← m.extract?
  let action ← Action.ofParams? kind values
  return ⟨action, ⟨place, place + m.text.size, m.text, ranges⟩⟩

def shift (bias : Nat) (c : ScannedCall) : ScannedCall :=
  { c with site := { c.site with start := c.site.start + bias, stop := c.site.stop + bias } }

end ScannedCall

namespace Scan

structure Candidate where
  place : Nat
  kind : ActionKind
  found : CallMatch

def Candidate.stop (c : Candidate) : Nat := c.place + c.found.text.size

/-- In the order of the places, the shorter first. -/
def Candidate.le (a b : Candidate) : Bool :=
  a.place < b.place || (a.place == b.place && a.stop ≤ b.stop)

/-- Everything that looks like a call, of one kind after the other. -/
def candidates (t : Text) : List Candidate :=
  CallShape.library.flatMap fun s => (s.occurrences t).map fun (place, m) => ⟨place, s.kind, m⟩

/-- Keeps the candidates that are actions and start at or after `free`, each one pushing `free` to
its end. A candidate that is no action covers nothing. -/
def select : Nat → List Candidate → List ScannedCall
  | _, [] => []
  | free, c :: cs =>
    if c.place < free then select free cs
    else
      match ScannedCall.ofMatch? c.kind c.place c.found with
      | some call => call :: select c.stop cs
      | none => select free cs

end Scan

/-- The complete calls of a text, in the order in which they stand. -/
def scan (t : Text) : List ScannedCall :=
  Scan.select 0 ((Scan.candidates t).mergeSort Scan.Candidate.le)

section
variable {m : Type → Type} [Monad m]

/-- The call of a text as a step with an identity of its own. -/
def Access.toStep (r : Access m) (bias : Nat) (c : ScannedCall) : StateT IdSupply m Step := do
  let text ← r.slice c.site.start c.site.stop
  let c := ScannedCall.shift bias { c with site := { c.site with text } }
  return ⟨← ActionId.fresh, c.action, some c.site⟩

/-- The calls of a text as steps, for a text that starts at place `bias` of a larger one. -/
def Operations.scanSteps (o : Operations m) (t : Text) (bias : Nat) :
    StateT IdSupply m (List Step) :=
  (scan t).mapM ((o.access t).toStep bias)

end

def scanSteps (t : Text) (bias : Nat) : Minting (List Step) := Operations.plain.scanSteps t bias

end RoutineSync
