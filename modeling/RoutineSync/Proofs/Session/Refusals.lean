import RoutineSync.Proofs.Session.Answers
import RoutineSync.Proofs.Sync.Writable
/-!
What makes a session refuse a request by the view. Every refusal is a check that comes before the
first change, so a request that is refused leaves everything as it was.
-/
set_option autoImplicit false

namespace RoutineSync.Session

/-- Sessions that requests lead to, whoever is told of the events meanwhile. -/
inductive Attended : Session → Prop where
  | start {t : Text} {s : Session} {supply supply' : IdSupply} :
      (Session.start t).run supply = (.ok s, supply') → Attended s
  | respond {s : Session} {supply : IdSupply} (q : Request) :
      Attended s → (∀ t ∈ s.heldTexts q supply, t.size ≤ maxPlace) →
      Attended ((s.respond q).run supply).1
  | subscribe {s : Session} : Attended s → Attended { s with routine := s.routine.subscribe.2 }
  | unsubscribe {s : Session} (subscriber : Nat) :
      Attended s → Attended { s with routine := (s.routine.unsubscribe subscriber).2 }

theorem Attended.kept {s : Session} (h : s.Attended) : s.Kept := by
  induction h with
  | start h => exact Kept.start h
  | respond q _ hs ih => exact ih.respond q _ hs
  | subscribe _ ih => exact ⟨ih.sound, ih.inStep⟩
  | unsubscribe _ _ ih => exact ⟨ih.sound, ih.inStep⟩

/-- The edit that a request asks for. -/
def asked? (s : Session) : Request → Option RoutineEdit
  | .edit e => some e
  | .undo => s.routine.peekUndo
  | .redo => s.routine.peekRedo
  | _ => none

/-- Whether a request would write in the text. -/
def Request.writes : Request → Bool
  | .edit _ | .undo | .redo | .setStartPose _ => true
  | _ => false

/-- The refusals of a request by the view, all of them read off the session as it is before. -/
inductive Refuses (s : Session) : Request → SessionError → Prop where
  | lost {q : Request} : s.desynced = true → q.writes = true → Refuses s q .desynced
  | invalid {e : RoutineEdit} {err : RoutineError} :
      s.routine.validate e = .error err → Refuses s (.edit e) (.routine err)
  | unwritten {q : Request} {e : RoutineEdit} {err : WriteError} : s.asked? q = some e →
      Rewrite.synthesize s.steps e (.byCount s.text) = .error err → Refuses s q (.write err)
  | noLiteral {pose : Pose} {param : String} : unwritable? pose = some param →
      Refuses s (.setStartPose pose) (.write (.invalidValue .setPose param))
  | outside {index : Nat} : s.routine.size ≤ index →
      Refuses s (.select (.index index)) (.selectionOutOfRange index s.routine.size)
  | unknown {id : ActionId} : s.routine.indexOf? id = none →
      Refuses s (.select (.id id)) (.unknownAction id)

/-- Where the routine's own change cannot fail, only writing can. -/
theorem perform_eq_error {s : Session} {e : RoutineEdit} {err : SessionError}
    {change : Routine → Except RoutineError (Option RoutineEvent × Routine)}
    (hchange : ∃ x t, change s.routine = .ok (x, t)) (h : s.perform e change = .error err) :
    ∃ w, Rewrite.synthesize s.steps e (.byCount s.text) = .error w ∧ err = .write w := by
  obtain ⟨x, t, hchange⟩ := hchange
  cases performs_of_eq h with
  | unwritten hr => exact ⟨_, hr, rfl⟩
  | refused _ hc => exact absurd (hchange.symm.trans hc) nofun

theorem refuses_of_edit {s : Session} {e : RoutineEdit} {err : SessionError}
    (h : s.edit e = .error err) : s.Refuses (.edit e) err := by
  cases edits_of_eq h with
  | lost hd => exact .lost hd rfl
  | invalid _ hv => exact .invalid hv
  | performed _ hv _ hperform =>
    obtain ⟨x, t, hedit, -⟩ := Routine.edit_of_validate hv .view
    obtain ⟨w, hw, rfl⟩ := perform_eq_error ⟨x, t, hedit⟩ hperform
    exact .unwritten rfl hw

/-- A step through a sound history can only fail in the writing. -/
theorem refuses_of_revisit {s : Session} {d : Direction} {q : Request} {err : SessionError}
    (hk : s.Kept) (hq : q.writes = true) (hasked : s.asked? q = s.routine.peek d)
    (h : s.revisit d = .error err) : s.Refuses q err := by
  cases revisits_of_eq h with
  | lost hd => exact .lost hd hq
  | performed _ he hperform =>
    obtain ⟨y, t, hy, -⟩ := hk.sound.retrace d
    obtain ⟨w, hw, rfl⟩ := perform_eq_error ⟨y, t, hy⟩ hperform
    exact .unwritten (hasked.trans he) hw

theorem refuses_of_select {s : Session} {which : Selector} {err : SessionError}
    (h : s.select which = .error err) : s.Refuses (.select which) err := by
  cases selects_of_eq h with
  | outside hi => exact .outside hi
  | unknown hi => exact .unknown hi

end RoutineSync.Session

namespace RoutineSync

theorem Routine.Sound.exists_setStartPose {r : Routine} (h : r.Sound) (pose : Pose) :
    ∃ first rest previous radians, r.steps = first :: rest ∧ first.action = .setPose previous radians ∧
      ∃ t, r.setStartPose pose = .ok (previous, t) ∧
        t.steps = { first with action := .setPose pose radians } :: rest := by
  obtain ⟨id, outline, hout⟩ := h.now.start
  rw [items_history, Routine.outline] at hout
  obtain ⟨first, rest, hsteps, hfirst, -⟩ := List.map_eq_cons_iff.1 hout
  have hkind : first.action.kind = .setPose := congrArg Prod.snd hfirst
  obtain ⟨previous, radians, haction⟩ : ∃ p radians, first.action = .setPose p radians := by
    cases ha : first.action <;> simp_all [Action.kind]
  refine ⟨first, rest, previous, radians, hsteps, haction, _,
    setStartPose_eq_ok_iff.2 ⟨first, rest, radians, hsteps, haction, rfl⟩, ?_⟩
  show r.journal.items.set 0 _ = _
  rw [show r.journal.items = first :: rest from hsteps]
  rfl

namespace Session

theorem writable_of_finite {pose : Pose} {radians : Option Bool} (h : unwritable? pose = none) :
    (Action.setPose pose radians).Writable := by
  have hfinite : pose.x.isFinite = true ∧ pose.y.isFinite = true ∧ pose.heading.isFinite = true := by
    cases hx : pose.x.isFinite <;> cases hy : pose.y.isFinite <;>
      cases hh : pose.heading.isFinite <;> simp_all [unwritable?]
  intro e he
  cases radians <;> simp [Action.params, Action.entry] at he <;>
    rcases he with rfl | rfl | rfl | rfl <;> simp [Value.isWritable, hfinite]

theorem refuses_of_setStartPose {s t : Session} {pose : Pose} {err : SessionError} (hk : s.Kept)
    (h : s.setStartPose pose = (t, .error err)) : t = s ∧ s.Refuses (.setStartPose pose) err := by
  obtain ⟨first, rest, previous, radians, hsteps, -, routine, hmoved, hsteps'⟩ :=
    hk.sound.exists_setStartPose pose
  cases movesPose_of_eq h with
  | lost hd => exact ⟨rfl, .lost hd rfl⟩
  | noLiteral hu => exact ⟨rfl, .noLiteral hu⟩
  | empty hnone =>
    rw [Routine.get?, hsteps] at hnone
    cases hnone
  | refused hrefused => cases hmoved.symm.trans hrefused
  | @unpatched _ _ first' _ action a _ hwritable hpose _ hmoved' _ hpatch =>
    -- the pose has a literal, so the call is patched or written anew
    cases hmoved.symm.trans hpose
    obtain rfl : action = .setPose pose radians :=
      congrArg Step.action (List.cons.inj (hmoved'.symm.trans hsteps')).1
    obtain ⟨p, hp⟩ := (@CallSite.exists_patchTo_iff a first'.action _).2
      (@writable_of_finite pose radians hwritable)
    cases hp.symm.trans hpatch

/-- A request by the view that is refused changes nothing, whatever state the session is in: the text,
the steps, the history, what is pending and selected are the same, nothing is told to those who are
told of events, and no number and no identity is taken. -/
theorem unchanged_of_refused {s t : Session} {q : Request} {err : SessionError}
    {supply supply' : IdSupply} (hs : s.Attended) (hq : ∀ n, q ≠ .notice n)
    (h : (s.answer q).run supply = ((t, .error err), supply')) :
    t = s ∧ supply' = supply ∧ s.Refuses q err := by
  have hk := hs.kept
  have hsettle : ∀ {α : Type} {f : α → Answer} {x : Except SessionError (Session × α)},
      s.settle f x = (t, .error err) → t = s ∧ x = .error err := by
    intro α f x hx
    cases x with
    | error e =>
      cases hx
      exact ⟨rfl, rfl⟩
    | ok p => cases hx
  cases q with
  | notice n => exact absurd rfl (hq n)
  | edit e =>
    obtain ⟨hx, rfl⟩ := Prod.mk.inj h
    obtain ⟨rfl, hx⟩ := hsettle hx
    exact ⟨rfl, rfl, refuses_of_edit hx⟩
  | undo =>
    obtain ⟨hx, rfl⟩ := Prod.mk.inj h
    obtain ⟨rfl, hx⟩ := hsettle hx
    exact ⟨rfl, rfl, refuses_of_revisit hk rfl rfl hx⟩
  | redo =>
    obtain ⟨hx, rfl⟩ := Prod.mk.inj h
    obtain ⟨rfl, hx⟩ := hsettle hx
    exact ⟨rfl, rfl, refuses_of_revisit hk rfl rfl hx⟩
  | setStartPose pose =>
    obtain ⟨hx, rfl⟩ := Prod.mk.inj h
    cases hmoved : s.setStartPose pose with
    | mk w x =>
      rw [hmoved] at hx
      cases x with
      | ok host => cases hx
      | error e =>
        cases hx
        obtain ⟨rfl, hrefused⟩ := refuses_of_setStartPose hk hmoved
        exact ⟨rfl, rfl, hrefused⟩
  | select which =>
    obtain ⟨hx, rfl⟩ := Prod.mk.inj h
    obtain ⟨rfl, hx⟩ := hsettle hx
    exact ⟨rfl, rfl, refuses_of_select hx⟩
  | clearSelection => cases h

/-- A pose without a literal, with an edit to undo and somebody to tell. -/
theorem unchanged_of_refused_pose :
    ∃ (s t : Session) (supply' : IdSupply), s.routine.canUndo = true ∧
      s.routine.subscribers = [0] ∧ s.text = "auton::setPose(0, 0, 0);\nauton::shoot();".toList ∧
      (s.answer (.setStartPose ⟨.zero, .nan, .zero⟩)).run ⟨1⟩
        = ((t, .error (.write (.invalidValue .setPose "y"))), supply') ∧ t = s ∧ supply' = ⟨1⟩ := by
  let shoot : Request := .edit (.insert 1 [⟨⟨7⟩, .shoot, none⟩])
  let pose : Request := .setStartPose ⟨.zero, .nan, .zero⟩
  have hall : ((Session.start "auton::setPose(0, 0, 0);".toList).run ⟨0⟩).1.toOption.any (fun s₀ =>
      let s₁ : Session := { s₀ with routine := s₀.routine.subscribe.2 }
      let s₂ := ((s₁.respond shoot).run ⟨1⟩).1
      (s₁.heldTexts shoot ⟨1⟩).all (fun t => t.size ≤ maxPlace) && s₂.routine.canUndo
        && s₂.routine.subscribers == [0]
        && s₂.text == "auton::setPose(0, 0, 0);\nauton::shoot();".toList
        && ((s₂.answer pose).run ⟨1⟩).1.2 == .error (.write (.invalidValue .setPose "y"))) = true := by
    decide +kernel
  obtain ⟨s₀, hs₀, hall⟩ := (Option.any_eq_true _ _).1 hall
  rw [Result.toOption_eq_some_iff] at hs₀
  simp only [Bool.and_eq_true, List.all_eq_true, decide_eq_true_eq, beq_iff_eq] at hall
  obtain ⟨⟨⟨⟨hsizes, hundo⟩, hsubscribers⟩, htext⟩, hrefused⟩ := hall
  have hattended := Attended.respond shoot (.subscribe (.start (Prod.ext hs₀ rfl))) hsizes
  generalize ((_ : Session).respond shoot).run ⟨1⟩ = p at *
  have hrun : (p.1.answer pose).run ⟨1⟩ = ((((p.1.answer pose).run ⟨1⟩).1.1,
      .error (.write (.invalidValue .setPose "y"))), ((p.1.answer pose).run ⟨1⟩).2) :=
    Prod.ext (Prod.ext rfl hrefused) rfl
  obtain ⟨ht, hsupply, -⟩ := unchanged_of_refused hattended (by simp [pose]) hrun
  exact ⟨_, _, _, hundo, hsubscribers, htext, hrun, ht, hsupply⟩

end Session

end RoutineSync
