import RoutineSync.Proofs.Session.Faithful
import RoutineSync.Proofs.Session.Taking
/-!
What a request is answered with besides the session that it leads to, and the outcomes of the
requests that the view is told of.
-/
set_option autoImplicit false

namespace RoutineSync.Session

/-- What the host has to carry out, and what the view is told. -/
structure Answer where
  host : Option HostEdit
  view : List ViewMessage
deriving DecidableEq

namespace Answer

def silent : Answer := ⟨none, []⟩

def ofOutcome : Option (HostEdit × ViewMessage) → Answer
  | none => silent
  | some (host, message) => ⟨some host, [message]⟩

end Answer

def settle {α : Type} (s : Session) (f : α → Answer) :
    Except SessionError (Session × α) → Session × Except SessionError Answer
  | .ok (t, a) => (t, .ok (f a))
  | .error e => (s, .error e)

def answer (s : Session) : Request → Minting (Session × Except SessionError Answer)
  | .notice n => do
    let (t, x) ← s.notice n
    return (t, x.map (Answer.mk none))
  | .edit e => return s.settle .ofOutcome (s.edit e)
  | .undo => return s.settle .ofOutcome s.undo
  | .redo => return s.settle .ofOutcome s.redo
  | .setStartPose pose =>
    let moved := s.setStartPose pose
    return (moved.1, moved.2.map fun host => ⟨host, []⟩)
  | .select which => return s.settle (fun _ => .silent) (s.select which)
  | .clearSelection => return (s.clearSelection, .ok .silent)

theorem fst_settle {α : Type} (s : Session) (f : α → Answer)
    (x : Except SessionError (Session × α)) : (s.settle f x).1 = s.orSame x := by
  cases x <;> rfl

theorem fst_answer (s : Session) (q : Request) (supply : IdSupply) :
    ((s.answer q).run supply).1.1 = ((s.respond q).run supply).1 := by
  cases q with
  | edit e => exact fst_settle s _ _
  | undo => exact fst_settle s _ _
  | redo => exact fst_settle s _ _
  | select which => exact fst_settle s _ _
  | notice n => rfl
  | setStartPose pose => rfl
  | clearSelection => rfl

/-- Whether the view is told what a request does to the routine. -/
def Request.isTold : Request → Bool
  | .setStartPose _ => false
  | _ => true

/-- The outcomes of such requests. -/
inductive Answers (s : Session) : Request → Session → Except SessionError Answer → Prop where
  | noticed {n : HostNotice} {t : Session} {x : Except SessionError (List ViewMessage)} :
      s.Notices n t x → Answers s (.notice n) t (x.map (Answer.mk none))
  | refused {q : Request} {e : SessionError} : Answers s q s (.error e)
  | silent {q : Request} {selection : Option Nat} : Answers s q { s with selection } (.ok .silent)
  | written {q : Request} {t : Session} {host : HostEdit} {message : ViewMessage} :
      s.Writes t host message → Answers s q t (.ok ⟨some host, [message]⟩)

theorem Gives.answers {s : Session} {x : Outcome} (h : s.Gives x) (q : Request) :
    s.Answers q (s.settle .ofOutcome x).1 (s.settle .ofOutcome x).2 := by
  cases x with
  | error e => exact .refused
  | ok p =>
    obtain ⟨t, out⟩ := p
    rcases h t out rfl with ⟨rfl, rfl⟩ | ⟨host, message, rfl, hwrites⟩
    · exact .silent
    · exact .written hwrites

theorem exists_answers (s : Session) {q : Request} (hq : q.isTold = true) (supply : IdSupply) :
    ∃ t x supply', (s.answer q).run supply = ((t, x), supply') ∧ s.Answers q t x := by
  cases q with
  | notice n =>
    obtain ⟨t, x, supply', hrun, hnotices⟩ := s.exists_notices n supply
    refine ⟨t, _, supply', ?_, .noticed hnotices⟩
    refine (StateT.run_bind _ _ _).trans ?_
    rw [hrun]
    rfl
  | edit e => exact ⟨_, _, supply, rfl, (s.gives_edit e).answers _⟩
  | undo => exact ⟨_, _, supply, rfl, (s.gives_revisit .back).answers _⟩
  | redo => exact ⟨_, _, supply, rfl, (s.gives_revisit .forth).answers _⟩
  | setStartPose pose => exact absurd hq nofun
  | select which =>
    refine ⟨_, _, supply, rfl, ?_⟩
    cases h : s.select which with
    | error e => exact .refused
    | ok p =>
      obtain ⟨t, range⟩ := p
      obtain ⟨selection, rfl⟩ := select_eq h
      exact .silent
  | clearSelection => exact ⟨_, _, supply, rfl, .silent⟩

end RoutineSync.Session
