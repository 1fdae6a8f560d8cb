import Mathlib.Logic.Relation
import RoutineSync.Proofs.Session.Faithful
import RoutineSync.Terminal.App
/-!
Edits of the front end. The session that carries out an edit is told at once that it has been carried
out, so between two edits nothing is pending, and the text and the routine stay in step.
-/
set_option autoImplicit false

namespace RoutineSync

namespace Session

variable {s t : Session}

/-- What a view asks of a session, and the echo of the session's own edit. -/
inductive Moves (s : Session) : Session → Prop where
  | edited {e : RoutineEdit} {t : Session} {out : Option (HostEdit × ViewMessage)} :
      s.edit e = .ok (t, out) → Moves s t
  | undone {t : Session} {out : Option (HostEdit × ViewMessage)} : s.undo = .ok (t, out) → Moves s t
  | redone {t : Session} {out : Option (HostEdit × ViewMessage)} : s.redo = .ok (t, out) → Moves s t
  | selected {which : Selector} {t : Session} {range : Option ByteRange} :
      s.select which = .ok (t, range) → Moves s t
  | echoed {seq : Nat} : seq ∈ s.pending → Moves s { s with pending := s.pending.erase seq }

/-- The second session is the first one, led on by moves. -/
abbrev Leads : Session → Session → Prop := Relation.ReflTransGen Moves

/-- Text and routine are in step, and no edit is left to be echoed. -/
structure Quiet (s : Session) : Prop where
  sound : s.routine.Sound
  inStep : s.desynced = false
  echoed : s.pending = []

theorem Quiet.length_pos (h : s.Quiet) : 0 < s.steps.length :=
  List.length_pos_of_ne_nil (Routine.steps_ne_nil h.sound)

theorem Quiet.start {text : Text} {supply supply' : IdSupply}
    (h : (Session.start text).run supply = (.ok s, supply')) : s.Quiet := by
  obtain ⟨-, -, -, hpending, hd, -⟩ := run_start h
  exact ⟨(Kept.start h).sound, hd, hpending⟩

def settled (s : Session) : Session := { s with pending := [] }

theorem Writes.exists_eq {host : HostEdit} {message : ViewMessage} (h : s.Writes t host message) :
    ∃ routine r selection, (s.routine.Sound → routine.Sound) ∧
      t = { ({ s with routine } : Session).write r with
        selection, pending := s.pending ++ [host.seq] } := by
  obtain ⟨-, -, -, hsound, hcommit⟩ := h
  rename_i e r event routine
  rw [commit_eq] at hcommit
  cases hcommit
  exact ⟨routine, r, _, hsound, rfl⟩

theorem Writes.pending_of_quiet {host : HostEdit} {message : ViewMessage}
    (h : s.Writes t host message) (hs : s.Quiet) : t.pending = [host.seq] := by
  obtain ⟨routine, r, selection, -, rfl⟩ := h.exists_eq
  show s.pending ++ [host.seq] = _
  rw [hs.echoed, List.nil_append]

theorem Writes.quiet {host : HostEdit} {message : ViewMessage} (h : s.Writes t host message)
    (hs : s.Quiet) : t.settled.Quiet := by
  obtain ⟨routine, r, selection, hsound, rfl⟩ := h.exists_eq
  refine ⟨?_, hs.inStep, rfl⟩
  show Journal.Throughout _ (({ s with routine } : Session).write r).routine.history
  rw [history_write]
  exact hsound hs.sound

theorem run_notice_of_writes {host : HostEdit} {message : ViewMessage} (h : s.Writes t host message)
    (hs : s.Quiet) (cs : List TextChange) (supply : IdSupply) :
    (t.notice ⟨some host.seq, cs⟩).run supply = ((t.settled, .ok []), supply) := by
  have hpending := h.pending_of_quiet hs
  rw [run_notice_echo (by simp [hpending]), hpending, List.erase_cons_head]
  rfl

theorem Moves.settled_of_writes {host : HostEdit} {message : ViewMessage}
    (h : s.Writes t host message) (hs : s.Quiet) : t.Moves t.settled := by
  have hpending := h.pending_of_quiet hs
  have hechoed := @Moves.echoed t host.seq (by simp [hpending])
  rwa [hpending, List.erase_cons_head] at hechoed

end Session

namespace App

inductive Applies (edit : Session → Session.Outcome) (a : App) : App → Prop where
  | closed : a.opened = none → Applies edit a a
  /-- The edit is refused or changes nothing. -/
  | idle {o : OpenFile} (status : String) : a.opened = some o →
      Applies edit a { a with status }.clampSelection
  | edited {o : OpenFile} {t : Session} {host : HostEdit} {message : ViewMessage} (status : String) :
      a.opened = some o → edit o.session = .ok (t, some (host, message)) →
      o.session.Writes t host message →
      Applies edit a { a with
        opened := some { o with session := t.settled, dirty := true }, status }.clampSelection

theorem exists_applies {a : App} {edit : Session → Session.Outcome}
    (hgives : ∀ s : Session, s.Gives (edit s))
    (hquiet : ∀ o, a.opened = some o → o.session.Quiet) (supply : IdSupply) :
    ∃ b, (a.apply edit).run supply = (b, supply) ∧ a.Applies edit b := by
  obtain ⟨project, catalog, files, selectedFile, selectedAction, focus, _ | o, status⟩ := a
  · exact ⟨_, rfl, .closed rfl⟩
  · unfold apply
    dsimp only
    cases hedit : edit o.session with
    | error e => exact ⟨_, rfl, .idle ("Edit rejected: " ++ e.message idShown) rfl⟩
    | ok p =>
      obtain ⟨t, out⟩ := p
      rcases hgives o.session t out hedit with ⟨rfl, rfl⟩ | ⟨host, message, rfl, hwrites⟩
      · exact ⟨_, rfl, .idle "Nothing to do" rfl⟩
      · refine ⟨_, ?_, .edited s!"{host.edits.length} text edit(s) applied" rfl hedit hwrites⟩
        refine (StateT.run_bind _ _ _).trans ?_
        rw [Session.run_notice_of_writes hwrites (hquiet o rfl)]
        rfl

end App

end RoutineSync
