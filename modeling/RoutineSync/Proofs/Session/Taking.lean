import RoutineSync.Proofs.Routine.Events
import RoutineSync.Proofs.Session.Outcomes
import RoutineSync.Proofs.Sync.Rescan
import RoutineSync.Proofs.Text.Edits
/-!
What a session makes of a notice, whatever state it is in: every outcome that there is, with what
the view is told. A change that fits is always taken over, and the changes before one that does not
fit have been taken over when that one is refused.
-/
set_option autoImplicit false

namespace RoutineSync.Session

/-- What taking over a change leads to, and what the view is told of it. -/
inductive Takes (s : Session) (c : TextChange) : Session → List ViewMessage → Prop where
  /-- While desynced only the text follows. -/
  | blind : s.desynced = true → Takes s c { s with text := c.apply s.text } []
  | lost : s.desynced = false →
      Takes s c { s with text := c.apply s.text, desynced := true } []
  | idle {routine : Routine} : s.desynced = false → routine.entries = s.routine.entries →
      routine.seq = s.routine.seq → Takes s c { s with text := c.apply s.text, routine } []
  | edited {before routine : Routine} {e : RoutineEdit} {event : RoutineEvent} {t : Session} :
      s.desynced = false → before.entries = s.routine.entries → before.seq = s.routine.seq →
      event.Tells e before routine →
      ({ s with text := c.apply s.text, routine } : Session).followSelection event = t →
      Takes s c t [t.editMessage event]

theorem run_takeChange_planned {s : Session} (hd : s.desynced = false) (c : TextChange)
    (supply : IdSupply) :
    (s.takeChange c).run supply =
      let (plan, supply') := (Rescan.plan s.steps c s.text).run supply
      (({ s with text := c.apply s.text } : Session).takePlanned plan, supply') := by
  show StateT.run (if s.desynced then _ else _) supply = _
  rw [if_neg (by simp [hd])]
  exact StateT.run_bind _ _ _

theorem run_takeChange_desynced {s : Session} (hd : s.desynced = true) (c : TextChange)
    (supply : IdSupply) :
    (s.takeChange c).run supply = (.ok ({ s with text := c.apply s.text }, []), supply) := by
  show StateT.run (if s.desynced then _ else _) supply = _
  rw [if_pos hd]
  rfl

/-- The outcomes of a planned change. The plan is checked against the routine as it is and carried out
once the calls behind the change are moved, which the checks do not see. -/
inductive TakesPlanned (s : Session) (c : TextChange) (plan : RescanPlan) :
    Session → List ViewMessage → Prop where
  | lost {err : RoutineError} : s.routine.validate plan.edit = .error err →
      TakesPlanned s c plan { s with text := c.apply s.text, desynced := true } []
  | idle : s.routine.validate plan.edit = .ok () →
      (s.routine.drift plan.driftFrom plan.drift).edit plan.edit .text
        = .ok (none, s.routine.drift plan.driftFrom plan.drift) →
      TakesPlanned s c plan
        { s with text := c.apply s.text, routine := s.routine.drift plan.driftFrom plan.drift } []
  | edited {event : RoutineEvent} {routine : Routine} {t : Session} :
      s.routine.validate plan.edit = .ok () →
      (s.routine.drift plan.driftFrom plan.drift).edit plan.edit .text = .ok (some event, routine) →
      ({ s with text := c.apply s.text, routine } : Session).followSelection event = t →
      TakesPlanned s c plan t [t.editMessage event]

theorem exists_takesPlanned (s : Session) (c : TextChange) (plan : RescanPlan) :
    ∃ t told, ({ s with text := c.apply s.text } : Session).takePlanned plan = .ok (t, told) ∧
      s.TakesPlanned c plan t told := by
  unfold takePlanned Operations.takePlanned
  dsimp only
  cases hvalid : s.routine.validate plan.edit with
  | error err => exact ⟨_, _, rfl, .lost hvalid⟩
  | ok _ =>
    obtain ⟨x, routine, hedit, -⟩ := Routine.edit_of_validate
      (Routine.validate_drift hvalid plan.driftFrom plan.drift) .text
    have hrun : (Operations.plain.editRoutine (s.routine.drift plan.driftFrom plan.drift) plan.edit
        .text).run = pure (.ok (x, routine)) := hedit
    have hdrift : Operations.plain.drift s.routine plan.driftFrom plan.drift
        = pure (s.routine.drift plan.driftFrom plan.drift) := rfl
    dsimp only
    rw [hdrift, pure_bind, hrun, pure_bind]
    cases x with
    | some event => exact ⟨_, _, rfl, .edited hvalid hedit rfl⟩
    | none =>
      obtain ⟨-, ⟨-, -, rfl⟩ | ⟨-, _, _, event, -, -, hsome⟩⟩ := Routine.edit_eq_ok hedit
      · exact ⟨_, _, rfl, .idle hvalid hedit⟩
      · exact absurd hsome nofun

theorem takesPlanned_of_eq {s t : Session} {c : TextChange} {plan : RescanPlan}
    {told : List ViewMessage}
    (h : ({ s with text := c.apply s.text } : Session).takePlanned plan = .ok (t, told)) :
    s.TakesPlanned c plan t told := by
  obtain ⟨t', told', h', htakes⟩ := s.exists_takesPlanned c plan
  cases h.symm.trans h'
  exact htakes

theorem TakesPlanned.takes {s t : Session} {c : TextChange} {plan : RescanPlan}
    {told : List ViewMessage} (h : s.TakesPlanned c plan t told) (hd : s.desynced = false) :
    s.Takes c t told := by
  have hentries := s.routine.entries_drift plan.driftFrom plan.drift
  cases h with
  | lost _ => exact .lost hd
  | idle _ _ => exact .idle hd hentries rfl
  | edited _ hedit ht => exact .edited hd hentries rfl (Routine.tells_edit hedit) ht

theorem exists_takes (s : Session) (c : TextChange) (supply : IdSupply) :
    ∃ t told supply', (s.takeChange c).run supply = (.ok (t, told), supply') ∧
      s.Takes c t told := by
  cases hd : s.desynced with
  | true => exact ⟨_, _, supply, run_takeChange_desynced hd c supply, .blind hd⟩
  | false =>
    obtain ⟨t, told, hplanned, htakes⟩ := s.exists_takesPlanned c
      ((Rescan.plan s.steps c s.text).run supply).1
    exact ⟨t, told, _, (run_takeChange_planned hd c supply).trans
      (congrArg (·, _) hplanned), htakes.takes hd⟩

theorem Takes.kept {s t : Session} {c : TextChange} {told : List ViewMessage}
    (h : s.Takes c t told) :
    t.text = c.apply s.text ∧ t.pending = s.pending ∧ s.routine.seq ≤ t.routine.seq ∧
      (s.desynced = true → t.desynced = true) := by
  cases h with
  | blind hd => exact ⟨rfl, rfl, Nat.le_refl _, id⟩
  | lost hd => exact ⟨rfl, rfl, Nat.le_refl _, fun _ => rfl⟩
  | idle hd _ hseq => exact ⟨rfl, rfl, Nat.le_of_eq hseq.symm, id⟩
  | @edited before routine e event _ hd _ hseq htells ht =>
    obtain ⟨selection, hselection⟩ := followSelection_eq
      ({ s with text := c.apply s.text, routine } : Session) event
    rw [← ht, hselection]
    refine ⟨rfl, rfl, ?_, id⟩
    show s.routine.seq ≤ routine.seq
    rw [htells.seq_next, htells.seq_eq, hseq]
    exact Nat.le_succ _

theorem takes_of_run {s t : Session} {c : TextChange} {told : List ViewMessage}
    {supply supply' : IdSupply} (h : (s.takeChange c).run supply = (.ok (t, told), supply')) :
    s.Takes c t told := by
  obtain ⟨t', told', supply'', hrun, htakes⟩ := s.exists_takes c supply
  cases h.symm.trans hrun
  exact htakes

inductive TakesAll : Session → List TextChange → Session → List ViewMessage → Prop where
  | nil {s : Session} : TakesAll s [] s []
  | cons {s t u : Session} {c : TextChange} {cs : List TextChange} {told later : List ViewMessage}
      {supply supply' : IdSupply} : c.fits s.text = true →
      (s.takeChange c).run supply = (.ok (t, told), supply') → TakesAll t cs u later →
      TakesAll s (c :: cs) u (told ++ later)

theorem TakesAll.kept {s t : Session} {cs : List TextChange} {told : List ViewMessage}
    (h : s.TakesAll cs t told) :
    TextChange.fitAll s.text cs = true ∧ t.text = TextChange.applyAll s.text cs ∧
      t.pending = s.pending ∧ s.routine.seq ≤ t.routine.seq ∧
      (s.desynced = true → t.desynced = true) := by
  induction h with
  | nil => exact ⟨rfl, rfl, rfl, Nat.le_refl _, id⟩
  | cons hf hrun _ ih =>
    obtain ⟨htext, hpending, hseq, hd⟩ := (takes_of_run hrun).kept
    obtain ⟨hfits, htexts, hpendings, hseqs, hds⟩ := ih
    rw [htext] at hfits htexts
    refine ⟨?_, htexts, hpendings.trans hpending, Nat.le_trans hseq hseqs, fun h => hds (hd h)⟩
    rw [TextChange.fitAll, hf, hfits]
    rfl

theorem checkChange_of_fits {s : Session} {c : TextChange} (h : c.fits s.text = true) :
    s.checkChange c = .ok () := if_pos h

theorem checkChange_of_not_fits {s : Session} {c : TextChange} (h : c.fits s.text = false) :
    s.checkChange c = .error (.invalidChange ⟨c.offset, min c.stop maxPlace⟩ s.text.size) :=
  if_neg (show ¬c.fits s.text = true by simp [h])

theorem run_takeChanges_of_not_fits {s : Session} {c : TextChange} (h : c.fits s.text = false)
    (cs : List TextChange) (messages : List ViewMessage) (supply : IdSupply) :
    (s.takeChanges (c :: cs) messages).run supply =
      ((s, .error (.invalidChange ⟨c.offset, min c.stop maxPlace⟩ s.text.size)), supply) := by
  have hcheck : Operations.plain.checkChange s c = _ := checkChange_of_not_fits h
  rw [takeChanges, Operations.takeChanges, hcheck]
  rfl

theorem run_takeChanges_of_taken {s t : Session} {c : TextChange} {told : List ViewMessage}
    {supply supply' : IdSupply} (h : c.fits s.text = true)
    (hrun : (s.takeChange c).run supply = (.ok (t, told), supply')) (cs : List TextChange)
    (messages : List ViewMessage) :
    (s.takeChanges (c :: cs) messages).run supply
      = (t.takeChanges cs (messages ++ told)).run supply' := by
  have hcheck : Operations.plain.checkChange s c = pure (.ok ()) := checkChange_of_fits h
  rw [takeChanges, Operations.takeChanges, hcheck, liftM_pure, pure_bind]
  refine (StateT.run_bind _ _ _).trans ?_
  rw [show (Operations.plain.takeChange s c).run supply = _ from hrun]
  rfl

/-- Changes are taken over up to the first that does not fit, which is then refused. -/
theorem run_takeChanges (s : Session) (cs : List TextChange) (messages : List ViewMessage)
    (supply : IdSupply) :
    ∃ t x supply', (s.takeChanges cs messages).run supply = ((t, x), supply') ∧
      ((∃ told, s.TakesAll cs t told ∧ x = .ok (messages ++ told)) ∨
        ∃ fore c rear told, cs = fore ++ c :: rear ∧ s.TakesAll fore t told ∧
          c.fits t.text = false ∧
          x = .error (.invalidChange ⟨c.offset, min c.stop maxPlace⟩ t.text.size)) := by
  induction cs generalizing s messages supply with
  | nil => exact ⟨s, _, supply, rfl, .inl ⟨[], .nil, by rw [List.append_nil]⟩⟩
  | cons c cs ih =>
    cases hf : c.fits s.text with
    | false =>
      exact ⟨s, _, supply, run_takeChanges_of_not_fits hf cs messages supply,
        .inr ⟨[], c, cs, [], rfl, .nil, hf, rfl⟩⟩
    | true =>
      obtain ⟨t, told, supply₁, hrun, -⟩ := s.exists_takes c supply
      obtain ⟨u, x, supply₂, hruns, hcases⟩ := ih t (messages ++ told) supply₁
      refine ⟨u, x, supply₂, (run_takeChanges_of_taken hf hrun cs messages).trans hruns, ?_⟩
      rcases hcases with ⟨later, hall, rfl⟩ | ⟨fore, d, rear, later, rfl, hall, hd, rfl⟩
      · exact .inl ⟨told ++ later, .cons hf hrun hall, by rw [List.append_assoc]⟩
      · exact .inr ⟨c :: fore, d, rear, told ++ later, rfl, .cons hf hrun hall, hd, rfl⟩

/-- The edit that takes over a whole text. -/
def resyncEdit (s : Session) (supply : IdSupply) : RoutineEdit :=
  ⟨0, s.routine.size, freshSteps (scan s.text) 0 supply s.steps⟩

/-- The session once that edit is made. -/
def resynced (s : Session) (routine : Routine) : Session :=
  { s with
    routine
    desynced := false
    selection := s.selection.filter fun index => index < routine.size }

theorem run_resync_eq (s : Session) (supply : IdSupply) :
    s.resync.run supply =
      (if (scan s.text).head?.any fun c => c.action.kind.establishesPose then
          (s.routine.edit (s.resyncEdit supply) .text).toOption.map fun p => s.resynced p.2
        else none,
        ⟨supply.next + (scan s.text).length⟩) := by
  have hhead : ((((scan s.text).zipIdx supply.next).map
      fun p => (p.1.shift 0).stepWith p.2).head?.any fun step => step.kind.establishesPose)
      = (scan s.text).head?.any fun c => c.action.kind.establishesPose := by
    cases scan s.text <;> rfl
  refine (StateT.run_bind _ _ _).trans ?_
  rw [show (Operations.plain.scanSteps s.text 0).run supply = _ from run_scanSteps s.text 0 supply]
  change StateT.run (if !_ then _ else _) _ = _
  rw [hhead]
  cases (scan s.text).head?.any fun c => c.action.kind.establishesPose with
  | false => rfl
  | true =>
    rw [if_pos rfl, if_neg (by decide)]
    obtain ⟨x, hx⟩ : ∃ x, s.routine.edit (s.resyncEdit supply) .text = x := ⟨_, rfl⟩
    have hrun : (Operations.plain.editRoutine s.routine ⟨0, s.routine.size, Rescan.inheritIds
        (((scan s.text).zipIdx supply.next).map fun p => (p.1.shift 0).stepWith p.2) s.steps⟩
        .text).run = pure x := hx
    rw [hx]
    dsimp only
    rw [hrun]
    cases x <;> rfl

theorem exists_of_resync {s t : Session} {supply supply' : IdSupply}
    (h : s.resync.run supply = (some t, supply')) :
    ∃ x routine, s.routine.edit (s.resyncEdit supply) .text = .ok (x, routine) ∧
      t = s.resynced routine := by
  have ht := (Prod.mk.inj ((run_resync_eq s supply).symm.trans h)).1
  split at ht
  · obtain ⟨⟨x, routine⟩, hedit, rfl⟩ := Option.map_eq_some_iff.1 ht
    exact ⟨x, routine, Result.toOption_eq_some_iff.1 hedit, rfl⟩
  · exact absurd ht nofun

theorem kept_of_resync {s t : Session} {supply supply' : IdSupply}
    (h : s.resync.run supply = (some t, supply')) :
    t.text = s.text ∧ t.pending = s.pending ∧ s.routine.seq ≤ t.routine.seq ∧
      t.desynced = false := by
  obtain ⟨x, routine, hedit, rfl⟩ := exists_of_resync h
  exact ⟨rfl, rfl, Routine.seq_le_of_edit hedit, rfl⟩

/-- The outcomes of a notice, with the answer. -/
inductive Notices (s : Session) (n : HostNotice) :
    Session → Except SessionError (List ViewMessage) → Prop where
  /-- An edit that is pending has been taken over before. -/
  | echo {seq : Nat} : seq ∈ n.echo → seq ∈ s.pending →
      Notices s n { s with pending := s.pending.erase seq } (.ok [])
  | refused {t : Session} {fore rear : List TextChange} {c : TextChange}
      {told : List ViewMessage} : (∀ seq ∈ n.echo, seq ∉ s.pending) →
      n.changes = fore ++ c :: rear → s.TakesAll fore t told → c.fits t.text = false →
      Notices s n t (.error (.invalidChange ⟨c.offset, min c.stop maxPlace⟩ t.text.size))
  | taken {t : Session} {told : List ViewMessage} : (∀ seq ∈ n.echo, seq ∉ s.pending) →
      s.TakesAll n.changes t told → t.desynced = false → Notices s n t (.ok told)
  | lost {t : Session} {told : List ViewMessage} : (∀ seq ∈ n.echo, seq ∉ s.pending) →
      s.TakesAll n.changes t told → t.desynced = true → Notices s n t (.error .desynced)
  /-- The view is told the whole list, whatever it has missed. -/
  | regained {t u : Session} {told : List ViewMessage} {supply supply' : IdSupply} :
      (∀ seq ∈ n.echo, seq ∉ s.pending) → s.TakesAll n.changes t told → t.desynced = true →
      t.resync.run supply = (some u, supply') → Notices s n u (.ok [u.snapshot])

theorem run_notice_echo {s : Session} {seq : Nat} (h : seq ∈ s.pending) (cs : List TextChange)
    (supply : IdSupply) :
    (s.notice ⟨some seq, cs⟩).run supply
      = (({ s with pending := s.pending.erase seq }, .ok []), supply) := by
  have hecho : ((some seq).filter fun seq => s.pending.contains seq) = some seq := by
    simp [Option.filter, h]
  unfold notice Operations.notice
  rw [hecho]
  rfl

theorem run_notice {s t : Session} {n : HostNotice}
    {x : Except SessionError (List ViewMessage)} {supply supply₁ : IdSupply}
    (hecho : ∀ seq ∈ n.echo, seq ∉ s.pending)
    (hrun : (s.takeChanges n.changes []).run supply = ((t, x), supply₁)) :
    (s.notice n).run supply = (t.conclude x).run supply₁ := by
  have hnone : (n.echo.filter fun seq => s.pending.contains seq) = none := by
    rw [Option.filter_eq_none_iff]
    intro seq hseq hpending
    exact hecho seq hseq (by simpa using hpending)
  unfold notice Operations.notice
  rw [hnone]
  refine (StateT.run_bind _ _ _).trans ?_
  rw [show (Operations.plain.takeChanges s n.changes []).run supply = _ from hrun]
  rfl

theorem run_conclude_of_inStep {s : Session} (hd : s.desynced = false) (told : List ViewMessage)
    (supply : IdSupply) : (s.conclude (.ok told)).run supply = ((s, .ok told), supply) := by
  show StateT.run (if !s.desynced then _ else _) supply = _
  rw [if_pos (by simp [hd])]
  rfl

theorem run_conclude_of_desynced {s : Session} (hd : s.desynced = true) (told : List ViewMessage)
    {x : Option Session} {supply supply' : IdSupply} (hresync : s.resync.run supply = (x, supply')) :
    (s.conclude (.ok told)).run supply =
      (x.elim (s, .error .desynced) fun t => (t, .ok [t.snapshot]), supply') := by
  show StateT.run (if !s.desynced then _ else _) supply = _
  rw [if_neg (by simp [hd])]
  refine (StateT.run_bind _ _ _).trans ?_
  rw [show (Operations.plain.resync s).run supply = _ from hresync]
  cases x <;> rfl

theorem exists_notices (s : Session) (n : HostNotice) (supply : IdSupply) :
    ∃ t x supply', (s.notice n).run supply = ((t, x), supply') ∧ s.Notices n t x := by
  by_cases hecho : ∃ seq ∈ n.echo, seq ∈ s.pending
  · obtain ⟨seq, hseq, hpending⟩ := hecho
    obtain ⟨echo, cs⟩ := n
    obtain rfl : echo = some seq := hseq
    exact ⟨_, _, supply, run_notice_echo hpending cs supply, .echo rfl hpending⟩
  · have hecho : ∀ seq ∈ n.echo, seq ∉ s.pending := fun seq hseq hp => hecho ⟨seq, hseq, hp⟩
    obtain ⟨t, x, supply₁, hrun, hcases⟩ := s.run_takeChanges n.changes [] supply
    rw [run_notice hecho hrun]
    rcases hcases with ⟨told, hall, rfl⟩ | ⟨fore, c, rear, told, hchanges, hall, hc, rfl⟩
    · cases hd : t.desynced with
      | false =>
        rw [run_conclude_of_inStep hd]
        exact ⟨_, _, _, rfl, .taken hecho hall hd⟩
      | true =>
        cases hresync : t.resync.run supply₁ with
        | mk u supply₂ =>
          rw [run_conclude_of_desynced hd _ hresync]
          cases u with
          | none => exact ⟨_, _, _, rfl, .lost hecho hall hd⟩
          | some u => exact ⟨_, _, _, rfl, .regained hecho hall hd hresync⟩
    · exact ⟨_, _, _, rfl, .refused hecho hchanges hall hc⟩

theorem notices_of_run {s t : Session} {n : HostNotice}
    {x : Except SessionError (List ViewMessage)} {supply supply' : IdSupply}
    (h : (s.notice n).run supply = ((t, x), supply')) : s.Notices n t x := by
  obtain ⟨t', x', supply'', hrun, hnotices⟩ := s.exists_notices n supply
  cases h.symm.trans hrun
  exact hnotices

/-- A notice that is refused stops at the first change that does not fit. Those before it have been
taken over, and the view is not told of them; if there are none, the session is as it was. -/
theorem taken_of_notice_refused {s t : Session} {n : HostNotice} {range : ByteRange} {size : Nat}
    {supply supply' : IdSupply}
    (h : (s.notice n).run supply = ((t, .error (.invalidChange range size)), supply')) :
    ∃ fore c rear, n.changes = fore ++ c :: rear ∧ (∃ untold, s.TakesAll fore t untold) ∧
      TextChange.fitAll s.text fore = true ∧ t.text = TextChange.applyAll s.text fore ∧
      t.pending = s.pending ∧ c.fits t.text = false ∧
      range = ⟨c.offset, min c.stop maxPlace⟩ ∧ size = t.text.size ∧ (fore = [] → t = s) := by
  cases notices_of_run h with
  | @refused _ fore rear c untold _ hchanges hall hc =>
    obtain ⟨hfits, htext, hpending, -⟩ := hall.kept
    refine ⟨fore, c, rear, hchanges, ⟨untold, hall⟩, hfits, htext, hpending, hc, rfl, rfl, ?_⟩
    rintro rfl
    cases hall
    rfl

/-- The echo is unknown and the second change would cut into what the first one has put in. -/
theorem taken_of_notice_refused_inside :
    let n : HostNotice := ⟨some 5, [⟨0, 0, "é".toList⟩, ⟨1, 0, []⟩]⟩
    ∃ (s t : Session) (supply' : IdSupply),
      (s.notice n).run ⟨1⟩ = ((t, .error (.invalidChange ⟨1, 1⟩ 26)), supply') ∧
      ∃ fore c rear, n.changes = fore ++ c :: rear ∧ (∃ untold, s.TakesAll fore t untold) ∧
        t.text = TextChange.applyAll s.text fore ∧ c.fits t.text = false := by
  intro n
  have hall : ((Session.start "auton::setPose(0, 0, 0);".toList).run ⟨0⟩).1.toOption.any (fun s =>
      decide (((s.notice n).run ⟨1⟩).1.2 = .error (.invalidChange ⟨1, 1⟩ 26))) = true := by
    decide +kernel
  obtain ⟨s, -, hrefused⟩ := (Option.any_eq_true _ _).1 hall
  have hrun : (s.notice n).run ⟨1⟩ = ((((s.notice n).run ⟨1⟩).1.1,
      .error (.invalidChange ⟨1, 1⟩ 26)), ((s.notice n).run ⟨1⟩).2) :=
    Prod.ext (Prod.ext rfl (of_decide_eq_true hrefused)) rfl
  obtain ⟨fore, c, rear, hchanges, huntold, -, htext, -, hc, -⟩ := taken_of_notice_refused hrun
  exact ⟨s, _, _, hrun, fore, c, rear, hchanges, huntold, htext, hc⟩

/-- The second change does not fit, and the first one has been made and can be undone. -/
theorem notice_refused_after_change :
    let n : HostNotice := ⟨none, [⟨15, 1, "1".toList⟩, ⟨100, 0, []⟩]⟩
    ∃ s : Session, ((Session.start "auton::setPose(0, 0, 0);".toList).run ⟨0⟩).1 = .ok s ∧
      ((s.notice n).run ⟨1⟩).1.2 = .error (.invalidChange ⟨100, 100⟩ 24) ∧
      ((s.notice n).run ⟨1⟩).1.1.text = "auton::setPose(1, 0, 0);".toList ∧
      ((s.notice n).run ⟨1⟩).1.1.steps ≠ s.steps ∧
      ((s.notice n).run ⟨1⟩).1.1.routine.canUndo = true ∧ s.routine.canUndo = false := by
  intro n
  have hall : ((Session.start "auton::setPose(0, 0, 0);".toList).run ⟨0⟩).1.toOption.any (fun s =>
      let r := ((s.notice n).run ⟨1⟩).1
      decide (r.2 = .error (.invalidChange ⟨100, 100⟩ 24) ∧
        r.1.text = "auton::setPose(1, 0, 0);".toList ∧ r.1.steps ≠ s.steps ∧
        r.1.routine.canUndo = true ∧ s.routine.canUndo = false)) = true := by
    decide +kernel
  obtain ⟨s, hstart, hall⟩ := (Option.any_eq_true _ _).1 hall
  exact ⟨s, Result.toOption_eq_some_iff.1 hstart, of_decide_eq_true hall⟩

end RoutineSync.Session
