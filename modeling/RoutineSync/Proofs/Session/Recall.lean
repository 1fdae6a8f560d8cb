import RoutineSync.Proofs.Session.Refusals
/-!
When a step through the history can be taken. The text can hold a number that is too large for one
that can be written, and once such a call is part of the history, going back to it is refused.
-/
set_option autoImplicit false

namespace RoutineSync

namespace Routine
variable {r t : Routine} {e : RoutineEdit}

/-- All texts of all steps, throughout the history, can be written. -/
def Quotable (r : Routine) : Prop :=
  r.Throughout (fun s => s.action.texts) fun all => ∀ texts ∈ all, ∀ cs ∈ texts, Value.quotable cs = true

theorem forall_map_texts {steps : List Step} :
    (∀ texts ∈ steps.map fun s => s.action.texts, ∀ cs ∈ texts, Value.quotable cs = true) ↔
      ∀ s ∈ steps, s.action.Quotable := List.forall_mem_map

theorem Quotable.congr (h : r.Quotable)
    (ht : t.journal.map (fun s => s.action.texts) = r.journal.map fun s => s.action.texts) :
    t.Quotable := by
  rw [Quotable, Throughout, ht]
  exact h

theorem Quotable.ofSteps {steps : List Step} (h : ofSteps steps = .ok r)
    (hs : ∀ s ∈ steps, s.action.Quotable) : r.Quotable := by
  obtain ⟨-, h⟩ := Result.check_eq_ok_iff.1 h
  obtain ⟨-, h⟩ := Result.check_eq_ok_iff.1 h
  rw [Result.pure_eq_ok_iff] at h
  rw [← h]
  exact Journal.Throughout.ofList (forall_map_texts.2 hs)

theorem Quotable.drift (h : r.Quotable) (n : Nat) (d : Drift) : (r.drift n d).Quotable :=
  h.congr (r.map_drift (fun _ _ => rfl) n d)

theorem Quotable.edit {origin : Origin} {x : Option RoutineEvent} (h : r.Quotable)
    (hr : r.edit e origin = .ok (x, t)) (he : ∀ s ∈ e.steps, s.action.Quotable) : t.Quotable := by
  refine Throughout.edit h hr (forall_map_texts.2 fun s hs => ?_)
  obtain ⟨x', t', hedit, hsteps⟩ := edit_of_validate (edit_eq_ok hr).1 origin
  cases hr.symm.trans hedit
  have hnow := forall_map_texts.1 h.now
  rw [hsteps] at hs
  simp only [Splice.run, List.mem_append] at hs
  rcases hs with (hs | hs) | hs
  · exact hnow s (List.mem_of_mem_take hs)
  · exact he s hs
  · exact hnow s (List.mem_of_mem_drop hs)

theorem Quotable.setStartPose {pose previous : Pose} (h : r.Quotable)
    (hr : r.setStartPose pose = .ok (previous, t)) : t.Quotable := by
  refine h.congr (map_setStartPose (fun s p q radians hs => ?_) hr)
  cases radians <;> simp [hs, Action.texts, Action.params, Action.entry, Value.text?]

theorem exists_peek {d : Direction} (h : (!(r.journal.ahead d).isEmpty) = true) :
    ∃ e, r.peek d = some e := by
  obtain ⟨c, cs, hahead⟩ := List.exists_cons_of_ne_nil (by simpa using h)
  rw [peek, Journal.peek, hahead]
  exact ⟨_, rfl⟩

theorem Throughout.exists_retrace {α : Type} {f : Step → α} {P : List α → Prop} {d : Direction}
    (h : r.Throughout f P) (hp : r.peek d = some e) :
    ∃ event t, r.retrace d = .ok (some event, t) := by
  obtain ⟨s, k, hwalk, -⟩ := Journal.Throughout.walk_of_map h d
  rw [Routine.peek, Journal.peek_of_walk hwalk] at hp
  cases s with
  | none => cases hp
  | some s => exact ⟨_, _, retrace_of_some hwalk⟩

theorem quotable_of_run (h : ∀ texts ∈ (Splice.run ⟨e.index, e.count, e.steps⟩ r.steps).map
      fun s => s.action.texts, ∀ cs ∈ texts, Value.quotable cs = true) :
    ∀ s ∈ e.steps, s.action.Quotable := fun s hs =>
  forall_map_texts.1 h s (List.mem_append_left _ (List.mem_append_right _ hs))

end Routine

namespace Session
variable {s t : Session} {e : RoutineEdit}

theorem quotable_of_mem_freshSteps {u : Text} {bias : Nat} {supply : IdSupply} {replaced : List Step} :
    ∀ x ∈ freshSteps (scan u) bias supply replaced, x.action.Quotable := by
  have hactions := map_freshSteps (·.action) (fun _ _ => rfl) (scan u) bias supply replaced
  intro x hx
  have hmem := List.mem_map_of_mem (f := (·.action)) hx
  rw [hactions] at hmem
  obtain ⟨c, hc, hca⟩ := List.mem_map.1 hmem
  rw [← hca]
  show c.action.Quotable
  exact quotable_of_mem_scan hc

theorem quotable_of_takeChange {c : TextChange} {told : List ViewMessage} {supply supply' : IdSupply}
    (h : s.routine.Quotable) (hrun : (s.takeChange c).run supply = (.ok (t, told), supply')) :
    t.routine.Quotable := by
  cases hd : s.desynced with
  | true =>
    rw [run_takeChange_desynced hd] at hrun
    cases hrun
    exact h
  | false =>
    obtain ⟨u, bias, plan, hplan, hsteps⟩ := run_planned s.steps c s.text supply
    rw [run_takeChange_planned hd, hplan] at hrun
    have hdrift := h.drift plan.driftFrom plan.drift
    cases takesPlanned_of_eq (Prod.mk.inj hrun).1 with
    | lost _ => exact h
    | idle _ _ => exact hdrift
    | @edited event routine _ _ hedit ht =>
      obtain ⟨selection, hselection⟩ := followSelection_eq
        ({ s with text := c.apply s.text, routine } : Session) event
      rw [← ht, hselection]
      exact hdrift.edit hedit (hsteps ▸ quotable_of_mem_freshSteps)

theorem quotable_of_takesAll {cs : List TextChange} {told : List ViewMessage}
    (h : s.routine.Quotable) (hall : s.TakesAll cs t told) : t.routine.Quotable := by
  induction hall with
  | nil => exact h
  | cons _ hrun _ ih => exact ih (quotable_of_takeChange h hrun)

theorem quotable_of_resync {supply supply' : IdSupply} (h : s.routine.Quotable)
    (hrun : s.resync.run supply = (some t, supply')) : t.routine.Quotable := by
  obtain ⟨x, routine, hedit, rfl⟩ := exists_of_resync hrun
  exact h.edit hedit quotable_of_mem_freshSteps

theorem quotable_of_notice {n : HostNotice} {x : Except SessionError (List ViewMessage)}
    {supply supply' : IdSupply} (h : s.routine.Quotable)
    (hrun : (s.notice n).run supply = ((t, x), supply')) : t.routine.Quotable := by
  cases notices_of_run hrun with
  | echo _ _ => exact h
  | refused _ _ hall _ => exact quotable_of_takesAll h hall
  | taken _ hall _ => exact quotable_of_takesAll h hall
  | lost _ hall _ => exact quotable_of_takesAll h hall
  | regained _ hall _ hresync => exact quotable_of_resync (quotable_of_takesAll h hall) hresync

theorem quotable_write {routine : Routine} (h : routine.Quotable) (r : Rewrite) :
    (({ s with routine } : Session).write r).routine.Quotable :=
  h.congr (routine_write (fun u => u.map_mapSites (fun _ _ => rfl) 0)
    (fun hset => Routine.map_setSite? (fun _ _ => rfl) hset) _ r)

theorem quotable_of_perform {out : Option (HostEdit × ViewMessage)}
    {change : Routine → Except RoutineError (Option RoutineEvent × Routine)} (h : s.routine.Quotable)
    (hchange : (∀ x ∈ e.steps, x.action.Writable) → ∀ x routine, change s.routine = .ok (x, routine) →
      routine.Quotable) (ht : s.perform e change = .ok (t, out)) : t.routine.Quotable := by
  cases performs_of_eq ht with
  | idle _ _ => exact h
  | @written r event routine _ _ _ hr hc hcommit =>
    rw [commit_eq] at hcommit
    cases hcommit
    exact quotable_write (hchange (Rewrite.exists_synthesize_iff.1 ⟨r, hr⟩).2 _ _ hc) r

theorem quotable_of_edit {out : Option (HostEdit × ViewMessage)} (h : s.routine.Quotable)
    (ht : s.edit e = .ok (t, out)) : t.routine.Quotable := by
  cases edits_of_eq ht with
  | idle _ _ _ => exact h
  | performed _ _ _ hperform =>
    exact quotable_of_perform h (fun hw _ _ hc => h.edit hc fun x hx =>
      (Action.writable_iff.1 (hw x hx)).2) hperform

theorem quotable_of_revisit {d : Direction} {out : Option (HostEdit × ViewMessage)}
    (h : s.routine.Quotable) (ht : s.revisit d = .ok (t, out)) : t.routine.Quotable := by
  cases revisits_of_eq ht with
  | idle _ _ => exact h
  | performed _ _ hperform =>
    refine quotable_of_perform h (fun _ x routine hc => ?_) hperform
    obtain ⟨y, u, hu, hquotable⟩ := Routine.Throughout.retrace h d
    cases hc.symm.trans hu
    exact hquotable

theorem Poses.quotable {x : Except SessionError (Option HostEdit)} (h : s.Poses t x)
    (hs : s.routine.Quotable) : t.routine.Quotable := by
  cases h with
  | refused => exact hs
  | unwritten hpose _ => exact hs.setStartPose hpose
  | written _ hpose _ _ _ _ hissue =>
    cases hissue
    exact quotable_write (hs.setStartPose hpose) _

theorem quotable_of_respond (h : s.routine.Quotable) (q : Request) (supply : IdSupply) :
    ((s.respond q).run supply).1.routine.Quotable := by
  have hsame : ∀ {α : Type} {x : Except SessionError (Session × α)},
      (∀ t out, x = .ok (t, out) → t.routine.Quotable) → (s.orSame x).routine.Quotable := by
    intro α x hx
    cases x with
    | error e => exact h
    | ok p => exact hx p.1 p.2 rfl
  cases q with
  | notice n =>
    have hrun : (s.notice n).run supply = _ := rfl
    exact quotable_of_notice h hrun
  | edit e => exact hsame fun _ _ => quotable_of_edit h
  | undo => exact hsame fun _ _ => quotable_of_revisit h
  | redo => exact hsame fun _ _ => quotable_of_revisit h
  | setStartPose pose =>
    have hpose : s.setStartPose pose = _ := rfl
    exact (poses_of_setStartPose hpose).quotable h
  | select which =>
    refine hsame fun t range ht => ?_
    obtain ⟨selection, rfl⟩ := select_eq ht
    exact h
  | clearSelection => exact h

/-- A session can write all texts that its history holds. -/
theorem Attended.quotable (h : s.Attended) : s.routine.Quotable := by
  induction h with
  | @start u s supply supply' hstart =>
    obtain ⟨hr, -⟩ := run_start hstart
    refine Routine.Quotable.ofSteps hr fun x hx => ?_
    obtain ⟨p, hp, rfl⟩ := List.mem_map.1 hx
    exact quotable_of_mem_scan (List.fst_mem_of_mem_zipIdx hp)
  | respond q _ _ ih => exact quotable_of_respond ih q _
  | subscribe _ ih => exact ih
  | unsubscribe _ _ ih => exact ih

/-- Where the routine's own step succeeds, it can be written exactly if its numbers can. -/
theorem exists_perform_iff {change : Routine → Except RoutineError (Option RoutineEvent × Routine)}
    (hfits : e.index + e.count ≤ s.steps.length) (hquotable : ∀ x ∈ e.steps, x.action.Quotable)
    (hchange : ∃ event routine, change s.routine = .ok (some event, routine)) :
    (∃ t out, s.perform e change = .ok (t, some out)) ↔ ∀ x ∈ e.steps, x.action.Finite := by
  obtain ⟨event, routine, hchange⟩ := hchange
  have hsynth := @Rewrite.exists_synthesize_iff s.steps e (.byCount s.text)
  constructor
  · rintro ⟨t, out, h⟩
    cases performs_of_eq h with
    | written hr _ _ => exact fun x hx => (Action.writable_iff.1 ((hsynth.1 ⟨_, hr⟩).2 x hx)).1
  · intro hfinite
    obtain ⟨r, hr⟩ := hsynth.2 ⟨hfits, fun x hx =>
      Action.writable_iff.2 ⟨hfinite x hx, hquotable x hx⟩⟩
    exact ⟨_, _, perform_of_ok hr hchange⟩

/-- A step that is there to be taken, in either direction, is written exactly if its numbers can. -/
theorem revisit_written_iff (hs : s.Attended) (hd : s.desynced = false) {d : Direction}
    (h : (!(s.routine.journal.ahead d).isEmpty) = true) : ∃ e, s.routine.peek d = some e ∧
      ((∃ t out, s.revisit d = .ok (t, some out)) ↔ ∀ x ∈ e.steps, x.action.Finite) := by
  obtain ⟨e, he⟩ := Routine.exists_peek h
  obtain ⟨hfits, hrun⟩ := Routine.Throughout.peek hs.quotable he
  refine ⟨e, he, ?_⟩
  rw [revisit_of_announced hd he]
  exact exists_perform_iff hfits (Routine.quotable_of_run hrun)
    (Routine.Throughout.exists_retrace hs.quotable he)

/-- In step, whatever can be undone or redone is written, except where it brings back a number that no
literal can write. -/
theorem exists_recall_iff (hs : s.Attended) (hd : s.desynced = false) :
    (s.routine.canUndo = true → ∃ e, s.routine.peekUndo = some e ∧
      ((∃ t out, s.undo = .ok (t, some out)) ↔ ∀ x ∈ e.steps, x.action.Finite)) ∧
    (s.routine.canRedo = true → ∃ e, s.routine.peekRedo = some e ∧
      ((∃ t out, s.redo = .ok (t, some out)) ↔ ∀ x ∈ e.steps, x.action.Finite)) :=
  ⟨@revisit_written_iff _ hs hd .back, @revisit_written_iff _ hs hd .forth⟩

/-- One edit is left to undo, and one with a number to redo. -/
theorem exists_recall_iff_between :
    ∃ s : Session, s.Attended ∧ s.desynced = false ∧ s.routine.canUndo = true ∧
      s.routine.canRedo = true ∧ (∃ t out, s.undo = .ok (t, some out)) ∧
      ∃ t out, s.redo = .ok (t, some out) := by
  let shoot : Request := .edit (.insert 1 [⟨⟨7⟩, .shoot, none⟩])
  let move : Request := .edit (.insert 2 [⟨⟨8⟩, .moveTo .zero (.ofInt 12) 500 none none, none⟩])
  have hall : ((Session.start "auton::setPose(0, 0, 0);".toList).run ⟨0⟩).1.toOption.any (fun s₀ =>
      let s₁ := ((s₀.respond shoot).run ⟨1⟩).1
      let s₂ := ((s₁.respond move).run ⟨1⟩).1
      let s₃ := ((s₂.respond .undo).run ⟨1⟩).1
      (s₀.heldTexts shoot ⟨1⟩ ++ s₁.heldTexts move ⟨1⟩ ++ s₂.heldTexts .undo ⟨1⟩).all
          (fun t => t.size ≤ maxPlace)
        && !s₃.desynced && s₃.routine.canUndo && s₃.routine.canRedo
        && s₃.routine.peekUndo.all (fun e => e.steps.all fun x => x.action.params.all (·.2.isWritable))
        && s₃.routine.peekRedo.all (fun e => e.steps.all fun x => x.action.params.all (·.2.isWritable)))
      = true := by
    decide +kernel
  obtain ⟨s₀, hs₀, hall⟩ := (Option.any_eq_true _ _).1 hall
  rw [Result.toOption_eq_some_iff] at hs₀
  simp only [Bool.and_eq_true, List.all_eq_true, List.mem_append, decide_eq_true_eq,
    Bool.not_eq_true', Option.all_eq_true] at hall
  obtain ⟨⟨⟨⟨⟨hsizes, hd⟩, hundo⟩, hredo⟩, hback⟩, hforth⟩ := hall
  have h₁ := @Attended.respond s₀ ⟨1⟩ shoot (.start (Prod.ext hs₀ rfl)) fun t ht =>
    hsizes t (.inl (.inl ht))
  have h₂ := @Attended.respond _ ⟨1⟩ move h₁ fun t ht => hsizes t (.inl (.inr ht))
  have h₃ := @Attended.respond _ ⟨1⟩ .undo h₂ fun t ht => hsizes t (.inr ht)
  obtain ⟨hrecall, hrecall'⟩ := exists_recall_iff h₃ hd
  obtain ⟨e, he, hiff⟩ := hrecall hundo
  obtain ⟨e', he', hiff'⟩ := hrecall' hredo
  exact ⟨_, h₃, hd, hundo, hredo, hiff.2 fun x hx => (Action.writable_iff.1 (hback e he x hx)).1,
    hiff'.2 fun x hx => (Action.writable_iff.1 (hforth e' he' x hx)).1⟩

/-- A number of more digits than any has is corrected in the text. The correction cannot be undone,
although there is something to undo. -/
theorem undo_refused_of_overlong :
    let long : Text := '1' :: List.replicate 309 '0'
    let n : HostNotice := ⟨none, [⟨15, 310, ['1']⟩]⟩
    ∃ s₀ s : Session, ((Session.start ("auton::setPose(".toList ++ long ++ ", 0, 0);".toList)).run
        ⟨0⟩).1 = .ok s₀ ∧ s = ((s₀.respond (.notice n)).run ⟨1⟩).1 ∧ s.Attended ∧
      s.text = "auton::setPose(1, 0, 0);".toList ∧ s.desynced = false ∧ s.routine.canUndo = true ∧
      s.undo = .error (.write (.invalidValue .setPose "x")) := by
  intro long n
  have hall : ((Session.start ("auton::setPose(".toList ++ long ++ ", 0, 0);".toList)).run
      ⟨0⟩).1.toOption.any (fun s₀ =>
        let s := ((s₀.respond (.notice n)).run ⟨1⟩).1
        (s₀.heldTexts (.notice n) ⟨1⟩).all (fun t => t.size ≤ maxPlace)
          && s.text == "auton::setPose(1, 0, 0);".toList && !s.desynced && s.routine.canUndo
          && s.undo.map (·.2) == .error (.write (.invalidValue .setPose "x"))) = true := by
    decide +kernel
  obtain ⟨s₀, hs₀, hall⟩ := (Option.any_eq_true _ _).1 hall
  rw [Result.toOption_eq_some_iff] at hs₀
  simp only [Bool.and_eq_true, List.all_eq_true, decide_eq_true_eq, Bool.not_eq_true',
    beq_iff_eq] at hall
  obtain ⟨⟨⟨⟨hsizes, htext⟩, hd⟩, hundo⟩, hrefused⟩ := hall
  have h₁ := @Attended.respond s₀ ⟨1⟩ (.notice n) (.start (Prod.ext hs₀ rfl)) hsizes
  refine ⟨s₀, _, hs₀, rfl, h₁, htext, hd, hundo, ?_⟩
  cases hu : (((s₀.respond (.notice n)).run ⟨1⟩).1).undo with
  | error e =>
    rw [hu] at hrefused
    exact congrArg Except.error (Except.error.inj hrefused)
  | ok p =>
    rw [hu] at hrefused
    exact absurd hrefused nofun

end Session

end RoutineSync
