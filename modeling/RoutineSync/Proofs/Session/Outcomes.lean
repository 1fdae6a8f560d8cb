import RoutineSync.Proofs.Routine.Lists
import RoutineSync.Proofs.Scan.Found
import RoutineSync.Session.Basic
/-!
What starting a session and asking it for edits can give, case by case. What holds of sessions is
derived from these cases, and not from the operations again.
-/
set_option autoImplicit false

namespace RoutineSync.Session
variable {s t : Session} {e : RoutineEdit} {x : Outcome}
  {change : Routine → Except RoutineError (Option RoutineEvent × Routine)}

/-! Starting -/

theorem run_start_eq (text : Text) (supply : IdSupply) :
    (Session.start text).run supply =
      (((Routine.ofSteps (((scan text).zipIdx supply.next).map
          fun p => (p.1.shift 0).stepWith p.2)).mapError .routine).map
          fun routine => ⟨text, routine, [], none, false⟩,
        ⟨supply.next + (scan text).length⟩) := by
  have hscan : (Operations.plain.scanSteps text 0).run supply = _ := run_scanSteps text 0 supply
  refine (StateT.run_bind _ _ _).trans ?_
  rw [hscan]
  change StateT.run _ _ = _
  cases Routine.ofSteps _ <;> rfl

theorem start_eq_ok {text : Text} {routine : Routine} {supply : IdSupply}
    (h : Routine.ofSteps (((scan text).zipIdx supply.next).map
      fun p => (p.1.shift 0).stepWith p.2) = .ok routine) :
    (Session.start text).run supply
      = (.ok ⟨text, routine, [], none, false⟩, ⟨supply.next + (scan text).length⟩) := by
  rw [run_start_eq, h]
  rfl

theorem exists_of_start {text : Text} {supply supply' : IdSupply}
    (h : (Session.start text).run supply = (.ok s, supply')) :
    ∃ routine, Routine.ofSteps (((scan text).zipIdx supply.next).map
        fun p => (p.1.shift 0).stepWith p.2) = .ok routine ∧
      s = ⟨text, routine, [], none, false⟩ ∧ supply' = ⟨supply.next + (scan text).length⟩ := by
  rw [run_start_eq, Prod.mk.injEq] at h
  obtain ⟨hs, rfl⟩ := h
  obtain ⟨routine, hr, rfl⟩ := Result.map_eq_ok_iff.1 hs
  exact ⟨routine, Result.mapError_eq_ok_iff.1 hr, rfl, rfl⟩

/-! Edits by the view -/

theorem followSelection_eq (s : Session) (event : RoutineEvent) :
    ∃ selection, s.followSelection event = { s with selection } := by
  unfold followSelection Operations.followSelection
  split
  · exact ⟨s.selection, rfl⟩
  · exact ⟨_, rfl⟩

/-- A view is told the steps of an event, as they are in the routine. -/
theorem editMessage_eq (s : Session) (event : RoutineEvent) :
    s.editMessage event = .edit event.seq event.origin event.index event.removed.length
      ((s.steps.drop event.index).take event.inserted.length) := by
  refine congrArg (ViewMessage.edit event.seq event.origin event.index event.removed.length) ?_
  show (s.steps.drop (min event.index _)).take (_ - min event.index _) = _
  generalize event.index = i
  generalize event.inserted.length = n
  rcases Nat.le_total i s.steps.length with h | h
  · have hstart : min i (min (i + n) s.steps.length) = i := by omega
    have hlength : min (min (i + n) s.steps.length - i) (s.steps.drop i).length
        = min n (s.steps.drop i).length := by
      rw [List.length_drop]
      omega
    rw [hstart, List.take_eq_take_min, hlength, ← List.take_eq_take_min]
  · rw [List.drop_of_length_le (by omega), List.drop_of_length_le h, List.take_nil, List.take_nil]

theorem write_eq (s : Session) (r : Rewrite) (installed : List ActionId) :
    (Operations.plain.write s r installed).run =
      { s with
        text := TextEdit.applyAll r.edits s.text
        routine := r.sites.foldl (fun t (id, site) => (t.setSite? id (some site)).getD t)
          (s.routine.mapSites 0 r.remap) } := by
  have hstep : ∀ x : Step, (Operations.plain.moveStep r installed x).run
      = { x with site := x.site.map r.remap } := by
    rintro ⟨id, action, _ | site⟩
    · rfl
    · show (if id ∈ installed then _ else _ : Id Step).run = _
      split <;> rfl
  have hmoved := List.idRun_mapM (l := s.steps) (f := Operations.plain.moveStep r installed)
  simp only [hstep] at hmoved
  rw [← s.routine.withSteps_map_site r.remap]
  exact congrArg (fun moved => ({ s with
    text := TextEdit.applyAll r.edits s.text
    routine := r.sites.foldl (fun t (id, site) => (t.setSite? id (some site)).getD t)
      (s.routine.withSteps moved) } : Session)) hmoved

theorem routine_write_eq (s : Session) (r : Rewrite) :
    (s.write r).routine = r.sites.foldl (fun t (id, site) => (t.setSite? id (some site)).getD t)
      (s.routine.mapSites 0 r.remap) := congrArg Session.routine (write_eq s r [])

theorem commit_eq (s : Session) (event : RoutineEvent) (r : Rewrite) :
    s.commit event r =
      ({ s.write r with
          selection := ((s.write r).followSelection event).selection
          pending := s.pending ++ [event.seq] },
        ⟨event.seq, r.edits⟩, (s.write r).editMessage event) := by
  have hwrite : Operations.plain.write s r (r.sites.map (·.1)) = s.write r :=
    (write_eq s r _).trans (write_eq s r []).symm
  obtain ⟨selection, hselection⟩ := followSelection_eq (s.write r) event
  have hfollow : Operations.plain.followSelection (s.write r) event
      = { s.write r with selection } := hselection
  have hcommit : s.commit event r =
      let w := Id.run (Operations.plain.write s r (r.sites.map (·.1)))
      let u := w.followSelection event
      ({ u with pending := u.pending ++ [event.seq] }, ⟨event.seq, r.edits⟩,
        ({ u with pending := u.pending ++ [event.seq] } : Session).editMessage event) := rfl
  rw [hcommit, hwrite, show Id.run (s.write r : Id Session) = s.write r from rfl]
  dsimp only
  rw [hselection]
  rfl

/-- The edit is written before it is made, so that one that cannot be written is not made either. -/
inductive Performs (s : Session) (e : RoutineEdit)
    (change : Routine → Except RoutineError (Option RoutineEvent × Routine)) : Outcome → Prop where
  | unwritten {err : WriteError} : Rewrite.synthesize s.steps e (.byCount s.text) = .error err →
      Performs s e change (.error (.write err))
  | refused {r : Rewrite} {err : RoutineError} :
      Rewrite.synthesize s.steps e (.byCount s.text) = .ok r → change s.routine = .error err →
      Performs s e change (.error (.routine err))
  | idle {r : Rewrite} {routine : Routine} :
      Rewrite.synthesize s.steps e (.byCount s.text) = .ok r → change s.routine = .ok (none, routine) →
      Performs s e change (.ok (s, none))
  | written {r : Rewrite} {event : RoutineEvent} {routine : Routine} {t : Session} {host : HostEdit}
      {message : ViewMessage} : Rewrite.synthesize s.steps e (.byCount s.text) = .ok r →
      change s.routine = .ok (some event, routine) →
      ({ s with routine } : Session).commit event r = (t, host, message) →
      Performs s e change (.ok (t, some (host, message)))

theorem perform_eq : s.perform e change = (do
    let r ← (Rewrite.synthesize s.steps e (.byCount s.text)).mapError .write
    let p ← (change s.routine).mapError .routine
    return p.1.elim (s, none) fun event =>
      ((({ s with routine := p.2 } : Session).commit event r).1,
        some (({ s with routine := p.2 } : Session).commit event r).2)) := by
  unfold perform Operations.perform
  rw [Result.run_bind]
  refine bind_congr fun r => (Result.run_bind _ _).trans (bind_congr fun p => ?_)
  obtain ⟨_ | event, routine⟩ := p <;> rfl

theorem perform_of_ok {r : Rewrite} {event : RoutineEvent} {routine : Routine}
    (hr : Rewrite.synthesize s.steps e (.byCount s.text) = .ok r)
    (hchange : change s.routine = .ok (some event, routine)) :
    s.perform e change = .ok ((({ s with routine } : Session).commit event r).1,
      some (({ s with routine } : Session).commit event r).2) := by
  rw [perform_eq, hr, hchange]
  rfl

theorem performs_of_eq (h : s.perform e change = x) : s.Performs e change x := by
  subst h
  cases hr : Rewrite.synthesize s.steps e (.byCount s.text) with
  | error err =>
    have hperform : s.perform e change = .error (.write err) := by
      rw [perform_eq, hr]
      rfl
    exact hperform ▸ .unwritten hr
  | ok r =>
    cases hc : change s.routine with
    | error err =>
      have hperform : s.perform e change = .error (.routine err) := by
        rw [perform_eq, hr, hc]
        rfl
      exact hperform ▸ .refused hr hc
    | ok p =>
      obtain ⟨_ | event, routine⟩ := p
      · have hperform : s.perform e change = .ok (s, none) := by
          rw [perform_eq, hr, hc]
          rfl
        exact hperform ▸ .idle hr hc
      · exact perform_of_ok hr hc ▸ .written hr hc rfl

inductive Edits (s : Session) (e : RoutineEdit) : Outcome → Prop where
  | lost : s.desynced = true → Edits s e (.error .desynced)
  | invalid {err : RoutineError} : s.desynced = false → s.routine.validate e = .error err →
      Edits s e (.error (.routine err))
  | idle : s.desynced = false → s.routine.validate e = .ok () → e.isIdle = true →
      Edits s e (.ok (s, none))
  | performed {x : Outcome} : s.desynced = false → s.routine.validate e = .ok () →
      e.isIdle = false → s.perform e (fun r => r.edit e .view) = x → Edits s e x

theorem edits_of_eq (h : s.edit e = x) : s.Edits e x := by
  unfold Session.edit Operations.edit at h
  cases hd : s.desynced with
  | true =>
    rw [if_pos hd] at h
    exact h ▸ .lost hd
  | false =>
    rw [if_neg (by simp [hd]), Result.run_bind] at h
    cases hv : s.routine.validate e with
    | error err =>
      rw [hv] at h
      exact h ▸ .invalid hd hv
    | ok _ =>
      rw [hv] at h
      cases hi : e.isIdle with
      | true =>
        rw [hi] at h
        exact h ▸ .idle hd hv hi
      | false =>
        rw [hi] at h
        exact .performed hd hv hi h

/-- A step through the history that is announced beforehand is performed. -/
inductive Revisits (d : Direction) (s : Session) : Outcome → Prop where
  | lost : s.desynced = true → Revisits d s (.error .desynced)
  | idle : s.desynced = false → s.routine.peek d = none → Revisits d s (.ok (s, none))
  | performed {e : RoutineEdit} {x : Outcome} : s.desynced = false → s.routine.peek d = some e →
      s.perform e (·.retrace d) = x → Revisits d s x

theorem revisit_of_announced {d : Direction} (hd : s.desynced = false)
    (he : s.routine.peek d = some e) : s.revisit d = s.perform e (·.retrace d) := by
  unfold Session.revisit Operations.revisit
  rw [if_neg (by simp [hd]), he]
  rfl

theorem revisits_of_eq {d : Direction} (h : s.revisit d = x) : s.Revisits d x := by
  cases hd : s.desynced with
  | true =>
    unfold Session.revisit Operations.revisit at h
    rw [if_pos hd] at h
    exact h ▸ .lost hd
  | false =>
    cases he : s.routine.peek d with
    | none =>
      unfold Session.revisit Operations.revisit at h
      rw [if_neg (by simp [hd]), he] at h
      exact h ▸ .idle hd he
    | some e => exact .performed hd he ((revisit_of_announced hd he).symm.trans h)

/-! Moving the starting pose -/

/-- Writing what is then sent to the host under the next number. -/
def issue (s : Session) (r : Rewrite) : Session × HostEdit :=
  let w := s.write r
  let (seq, routine) := w.routine.nextSeq
  ({ w with routine, pending := w.pending ++ [seq] }, ⟨seq, r.edits⟩)

/-- The routine is changed first, and keeps the pose where the call cannot be patched. -/
inductive MovesPose (s : Session) (pose : Pose) : Session → Except SessionError (Option HostEdit) → Prop where
  | lost : s.desynced = true → MovesPose s pose s (.error .desynced)
  | empty : s.routine.get? 0 = none → MovesPose s pose s (.error (.routine .empty))
  | noLiteral {param : String} : unwritable? pose = some param →
      MovesPose s pose s (.error (.write (.invalidValue .setPose param)))
  | refused {err : RoutineError} : s.routine.setStartPose pose = .error err →
      MovesPose s pose s (.error (.routine err))
  | unsited {previous : Pose} {routine : Routine} {first : Step} {rest : List Step} :
      s.routine.setStartPose pose = .ok (previous, routine) → s.steps = first :: rest →
      first.site = none → MovesPose s pose { s with routine } (.ok none)
  | unpatched {previous : Pose} {routine : Routine} {first : Step} {rest : List Step}
      {action : Action} {a : CallSite} {err : WriteError} : unwritable? pose = none →
      s.routine.setStartPose pose = .ok (previous, routine) → s.steps = first :: rest →
      routine.steps = { first with action } :: rest → first.site = some a →
      a.patchTo first.action action = .error err →
      MovesPose s pose { s with routine } (.error (.write err))
  | unchanged {previous : Pose} {routine : Routine} {first : Step} {rest : List Step}
      {action : Action} {a site : CallSite} :
      s.routine.setStartPose pose = .ok (previous, routine) → s.steps = first :: rest →
      routine.steps = { first with action } :: rest → first.site = some a →
      a.patchTo first.action action = .ok ([], site) → MovesPose s pose { s with routine } (.ok none)
  | patched {previous : Pose} {routine : Routine} {first : Step} {rest : List Step}
      {action : Action} {a site : CallSite} {edits : List TextEdit} {t : Session} {host : HostEdit} :
      s.desynced = false → s.routine.setStartPose pose = .ok (previous, routine) →
      s.steps = first :: rest → routine.steps = { first with action } :: rest →
      first.site = some a → a.patchTo first.action action = .ok (edits, site) →
      ({ s with routine } : Session).issue ⟨edits, [(first.id, site)]⟩ = (t, host) →
      MovesPose s pose t (.ok (some host))

theorem movesPose_of_eq {pose : Pose} {x : Except SessionError (Option HostEdit)}
    (h : s.setStartPose pose = (t, x)) : s.MovesPose pose t x := by
  unfold Session.setStartPose Operations.setStartPose at h
  cases hd : s.desynced with
  | true =>
    rw [if_pos hd] at h
    cases h
    exact .lost hd
  | false =>
    rw [if_neg (by simp [hd])] at h
    split at h
    · cases h
      exact .empty ‹_›
    rename_i before hbefore
    split at h
    · cases h
      exact .noLiteral ‹_›
    rename_i hwritable
    split at h
    · cases h
      exact .refused ‹_›
    rename_i previous routine hpose
    obtain ⟨first, rest, action, hsteps, hmoved⟩ := Routine.steps_setStartPose hpose
    obtain rfl : first = before := by
      rw [Routine.get?, hsteps] at hbefore
      exact Option.some.inj hbefore
    have hafter : routine.get? 0 = some { first with action } := by
      rw [Routine.get?, hmoved]
      rfl
    split at h
    · cases h
      exact .unsited hpose hsteps ‹_›
    · rename_i hnone
      exact absurd (hnone.symm.trans hafter) nofun
    rename_i a after hsite hsome
    obtain rfl : { first with action } = after := Option.some.inj (hafter.symm.trans hsome)
    obtain ⟨outcome, hpatch⟩ : ∃ x, a.patchTo first.action action = x := ⟨_, rfl⟩
    have hrun : (Operations.plain.patchTo a first.action action).run = pure outcome := hpatch
    rw [hrun, pure_bind] at h
    rcases outcome with err | ⟨_ | ⟨edit, edits⟩, site⟩
    · cases h
      exact .unpatched hwritable hpose hsteps hmoved hsite hpatch
    · cases h
      exact .unchanged hpose hsteps hmoved hsite hpatch
    · cases h
      exact .patched hd hpose hsteps hmoved hsite hpatch rfl

/-! Selecting -/

inductive Selects (s : Session) : Selector → Except SessionError (Session × Option ByteRange) → Prop where
  | outside {index : Nat} : s.routine.size ≤ index →
      Selects s (.index index) (.error (.selectionOutOfRange index s.routine.size))
  | unknown {id : ActionId} : s.routine.indexOf? id = none →
      Selects s (.id id) (.error (.unknownAction id))
  | byIndex {index : Nat} : index < s.routine.size →
      Selects s (.index index) (.ok ({ s with selection := some index }, s.highlight? index none))
  | byId {id : ActionId} {index : Nat} : s.routine.indexOf? id = some index →
      Selects s (.id id) (.ok ({ s with selection := some index }, s.highlight? index none))

theorem selects_of_eq {which : Selector} {x : Except SessionError (Session × Option ByteRange)}
    (h : s.select which = x) : s.Selects which x := by
  unfold Session.select at h
  cases which with
  | index index =>
    by_cases hi : index < s.routine.size
    · simp only [hi, if_true] at h
      exact h ▸ .byIndex hi
    · simp only [hi, if_false] at h
      exact h ▸ .outside (Nat.le_of_not_lt hi)
  | id id =>
    cases hi : s.routine.indexOf? id with
    | some index =>
      simp only [hi] at h
      exact h ▸ .byId hi
    | none =>
      simp only [hi] at h
      exact h ▸ .unknown hi

end RoutineSync.Session
