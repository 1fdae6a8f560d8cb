import RoutineSync.Proofs.Checked.Operations
import RoutineSync.Proofs.Checked.Rewrite
import RoutineSync.Proofs.Checked.Routine
import RoutineSync.Proofs.Session.Recall
/-!
The whole session, whatever operations it is built on. Whatever document it is started with and
whatever is asked of it afterwards, no operation is asked for something that is not there; so with
checked operations it stops nowhere and answers as it does plainly.
-/
set_option autoImplicit false

namespace RoutineSync

/-- Installed steps get a site when an edit is written; the others keep their places. -/
theorem Session.exists_carries {s : Session} {e : RoutineEdit} {event : RoutineEvent}
    {routine : Routine} {r : Rewrite} (hsync : s.InStep)
    (hr : Rewrite.synthesize s.steps e (.byCount s.text) = .ok r)
    (htells : event.Tells e s.routine routine) :
    ∃ stay, Rewrite.Carries s.text r.edits stay ∧ ∀ x ∈ routine.steps, x.id ∉ r.sites.map (·.1) →
      ∀ a ∈ x.site, ∃ y ∈ stay, y.site = a := by
  obtain ⟨sites, hsites, ha⟩ := hsync
  obtain ⟨-, ⟨m⟩⟩ := Rewrite.nonempty_synthesis hsites hr
  have hparts := (parts_eq sites e.index e.count).symm ▸ ha.marked
  refine ⟨_, m.carries hparts, fun x hx hid a hxa => ?_⟩
  rw [htells.steps_eq] at hx
  simp only [Splice.run, List.mem_append] at hx
  rcases hx with (hx | hx) | hx
  · have hfore : (s.steps.take e.index).map (·.site) = (sites.take e.index).map some := by
      rw [List.map_take, List.map_take, hsites]
    exact ⟨_, Rewrite.Synthesis.left_staying (mem_of_site hfore hx hxa), rfl⟩
  · exact absurd (m.keys_perm.mem_iff.2 (List.mem_map_of_mem hx)) hid
  · have hrear : (s.steps.drop (e.index + e.count)).map (·.site)
        = (sites.drop (e.index + e.count)).map some := by
      rw [List.map_drop, List.map_drop, hsites]
    exact ⟨_, Rewrite.Synthesis.right_staying (mem_of_site hrear hx hxa), rfl⟩

/-- The edits that move the starting pose carry all calls along. -/
theorem Session.Kept.exists_carries_startPose {s : Session} {first : Step} {rest : List Step}
    {a site : CallSite} {before after : Action} {edits : List TextEdit} (h : s.Kept)
    (hd : s.desynced = false) (hsteps : s.steps = first :: rest) (hsite : first.site = some a)
    (hpatch : a.patchTo before after = .ok (edits, site)) :
    ∃ stay, Rewrite.Carries s.text edits stay ∧
      ∀ x ∈ s.steps, ∀ b ∈ x.site, ∃ y ∈ stay, y.site = b := by
  obtain ⟨sites, hsites, ha⟩ := h.inStep hd
  obtain ⟨hp, -⟩ := h.patchesTo hd hsteps hsite hpatch
  have hfirst := hsites
  rw [hsteps, List.map_cons, hsite] at hfirst
  obtain ⟨as, rfl⟩ : ∃ as, sites = a :: as := by
    cases sites with
    | nil => cases hfirst
    | cons b as => exact ⟨as, by rw [Option.some.inj (List.cons.inj hfirst).1]⟩
  refine ⟨_, hp.carries ha, fun x hx b hb => ?_⟩
  rcases List.mem_cons.1 (mem_of_site hsites hx hb) with rfl | hb
  · exact ⟨_, List.mem_cons_self, rfl⟩
  · exact ⟨⟨b, []⟩, List.mem_cons_of_mem _ (List.mem_map_of_mem hb), rfl⟩

namespace Operations.Faithful
variable {m : Type → Type} [Monad m] [LawfulMonad m] {o : Operations m} {s : Session}

theorem start (ho : o.Faithful) (t : Text) (supply : IdSupply) :
    Follows ((o.start t).run supply) ((Session.start t).run supply) := by
  refine .after (ho.scanSteps t 0 supply) fun steps supply' _ => ?_
  cases Routine.ofSteps steps with
  | error e => exact .pure _
  | ok routine => exact .pure _

theorem follow (ho : o.Faithful) (r : Routine) (event : RoutineEvent) (selected : Nat) :
    Follows (o.follow r event selected) (plain.follow r event selected) := by
  refine .ite (fun _ => .pure _) fun hbefore => .ite (fun _ => ?_) fun _ => ?_
  · exact (ho.sub (by omega)).bind (.pure _)
  · exact (ho.sub (Nat.le_of_not_lt hbefore)).bind (.pure _)

theorem followSelection (ho : o.Faithful) (s : Session) (event : RoutineEvent) :
    Follows (o.followSelection s event) (plain.followSelection s event) := by
  unfold Operations.followSelection
  cases s.selection with
  | none => exact .pure _
  | some selected => exact (ho.follow _ _ _).bind (.pure _)

/-- What is left of the range of an event at the end of a list lies in the list. -/
theorem editMessage (ho : o.Faithful) (s : Session) (event : RoutineEvent) :
    Follows (o.editMessage s event) (plain.editMessage s event) := by
  refine (ho.sub (Nat.min_le_right _ _)).bind ((ho.range ?_).bind (.pure _))
  show min event.index _ + (_ - min event.index _) ≤ s.steps.length
  omega

/-! Writing -/

section
variable {r : Rewrite} {installed : List ActionId} {stay : List Rewrite.Staying}

theorem moveStep (ho : o.Faithful) {t : Text} (hc : Rewrite.Carries t r.edits stay)
    (hs : (TextEdit.applyAll r.edits t).size ≤ maxPlace) {x : Step}
    (hstay : x.id ∉ installed → ∀ a ∈ x.site, ∃ y ∈ stay, y.site = a) :
    Follows (o.moveStep r installed x) (plain.moveStep r installed x) := by
  obtain ⟨id, action, site⟩ := x
  cases site with
  | none => exact .pure _
  | some a =>
    refine .ite (fun _ => .pure _) fun hid => ?_
    obtain ⟨y, hy, rfl⟩ := hstay hid a rfl
    exact .bind (.bind (ho.landStart hc hs hy) (.bind (ho.landEnd hc hs hy) (.pure _))) (.pure _)

theorem write (ho : o.Faithful) (hc : Rewrite.Carries s.text r.edits stay)
    (hs : (TextEdit.applyAll r.edits s.text).size ≤ maxPlace)
    (hstay : ∀ x ∈ s.steps, x.id ∉ installed → ∀ a ∈ x.site, ∃ y ∈ stay, y.site = a) :
    Follows (o.write s r installed) (plain.write s r installed) :=
  (ho.applyAll hc.fit).bind
    (.bind (.mapM fun x hx => ho.moveStep hc hs (hstay x hx)) (.pure _))

theorem commit (ho : o.Faithful) (event : RoutineEvent)
    (hwrite : Follows (o.write s r (r.sites.map (·.1))) (plain.write s r (r.sites.map (·.1)))) :
    Follows (o.commit s event r) (plain.commit s event r) :=
  hwrite.bind ((ho.followSelection _ _).bind ((ho.editMessage _ _).bind (.pure _)))

end

section
variable {e : RoutineEdit}

theorem perform (ho : o.Faithful) (hsync : s.InStep)
    (change : Routine → Except RoutineError (Option RoutineEvent × Routine))
    {x : ExceptT RoutineError m (Option RoutineEvent × Routine)} {event : RoutineEvent}
    {routine : Routine} (hx : Follows x.run (pure (change s.routine)))
    (hchange : change s.routine = .ok (some event, routine))
    (htells : event.Tells e s.routine routine)
    (hs : ∀ t out, s.perform e change = .ok (t, out) → t.text.size ≤ maxPlace) :
    Follows (o.perform s e x).run (pure (s.perform e change)) := by
  have hsize : ∀ r, Rewrite.synthesize s.steps e (.byCount s.text) = .ok r →
      (TextEdit.applyAll r.edits s.text).size ≤ maxPlace := fun r hr => by
    have hcommit := hs _ _ (Session.perform_of_ok hr hchange)
    rwa [Session.commit_eq] at hcommit
  obtain ⟨sites, hsites, ha⟩ := hsync
  refine (ho.synthesize_anchored (ho.access _) hsites ha hsize).adapt.andThen fun r hr => ?_
  have hr : Rewrite.synthesize s.steps e (.byCount s.text) = .ok r := Result.mapError_eq_ok_iff.1 hr
  refine hx.adapt.andThen fun p hp => ?_
  have hp : change s.routine = .ok p := Result.mapError_eq_ok_iff.1 hp
  obtain rfl := Except.ok.inj (hchange.symm.trans hp)
  obtain ⟨stay, hc, hstay⟩ := Session.exists_carries ⟨sites, hsites, ha⟩ hr htells
  have hwrite := ho.write (s := { s with routine }) hc (hsize r hr) hstay
  exact (ho.commit event hwrite).lift.andThen fun _ _ => .pure _

theorem edit (ho : o.Faithful) (h : s.Kept) (e : RoutineEdit)
    (hs : ∀ t out, s.edit e = .ok (t, out) → t.text.size ≤ maxPlace) :
    Follows (o.edit s e).run (pure (s.edit e)) := by
  unfold Session.edit at hs ⊢
  unfold Operations.edit at hs ⊢
  refine .ite (fun _ => (Follows.throw _).andThen fun _ h => by cases h) fun hd => ?_
  refine (Follows.ofExcept _).andThen fun _ hvalid => .ite (fun _ => .pure _) fun hidle => ?_
  have hvalid : s.routine.validate e = .ok () := Result.mapError_eq_ok_iff.1 hvalid
  obtain ⟨x, routine, hedit, -⟩ := Routine.edit_of_validate hvalid .view
  obtain ⟨-, ⟨hidle', -⟩ | ⟨-, c, journal, event, -, -, rfl⟩⟩ := Routine.edit_eq_ok hedit
  · exact absurd hidle' hidle
  refine ho.perform (h.inStep (by simpa using hd)) (·.edit e .view) (ho.editRoutine _ _ _) hedit
    (Routine.tells_edit hedit) fun t out ht => hs t out ?_
  rw [if_neg hd, Result.run_bind, hvalid]
  exact (if_neg hidle).trans ht

theorem revisit (ho : o.Faithful) (h : s.Kept) (d : Direction)
    (hs : ∀ t out, s.revisit d = .ok (t, out) → t.text.size ≤ maxPlace) :
    Follows (o.revisit d s).run (pure (s.revisit d)) := by
  unfold Session.revisit Operations.revisit
  refine .ite (fun _ => (Follows.throw _).andThen fun _ h => by cases h) fun hd => ?_
  cases hpeek : s.routine.peek d with
  | none => exact .pure _
  | some e =>
    have hd : s.desynced = false := by simpa using hd
    obtain ⟨event, routine, hretrace⟩ :=
      Routine.Throughout.exists_retrace (f := Step.outline) h.sound hpeek
    refine ho.perform (h.inStep hd) (·.retrace d) (ho.retrace h.sound d) hretrace
      (Routine.tells_retrace hpeek hretrace) fun t out ht => hs t out ?_
    exact (Session.revisit_of_announced hd hpeek).trans ht

end

/-! Moving the starting pose -/

theorem setStartPose (ho : o.Faithful) (h : s.Kept) (pose : Pose)
    (hs : (s.setStartPose pose).1.text.size ≤ maxPlace) :
    Follows (o.setStartPose s pose) (pure (s.setStartPose pose)) := by
  unfold Session.setStartPose at hs ⊢
  unfold Operations.setStartPose at hs ⊢
  refine .ite (fun _ => .pure _) fun hd => ?_
  rw [if_neg hd] at hs
  rw [Bool.not_eq_true] at hd
  cases hbefore : s.routine.get? 0 with
  | none => exact .pure _
  | some before => ?_
  cases hwritable : Session.unwritable? pose with
  | some param => exact .pure _
  | none => ?_
  cases hpose : s.routine.setStartPose pose with
  | error e => exact .pure _
  | ok p => ?_
  obtain ⟨previous, routine⟩ := p
  -- the first step has moved in place
  obtain ⟨first, rest, action, hsteps, hmoved⟩ := Routine.steps_setStartPose hpose
  obtain rfl : first = before := by
    rw [Routine.get?, hsteps] at hbefore
    exact Option.some.inj hbefore
  have hafter : routine.get? 0 = some { first with action } := by
    rw [Routine.get?, hmoved]
    rfl
  simp only [hbefore, hwritable, hpose, hafter] at hs ⊢
  cases hsite : first.site with
  | none => exact .pure _
  | some site => ?_
  obtain ⟨sites, hsites, ha⟩ := h.inStep hd
  have hstands := ha.standsIn_of_site hsites (List.mem_of_getElem? hbefore) hsite
  simp only [hsite] at hs
  refine (ho.patchTo hstands.proper _ _).bind ?_
  obtain ⟨outcome, hpatch⟩ : ∃ x, site.patchTo first.action action = x := ⟨_, rfl⟩
  have hrun : (plain.patchTo site first.action action).run = pure outcome := hpatch
  rw [hrun, pure_bind] at hs
  rw [hrun]
  obtain e | ⟨_ | ⟨edit, edits⟩, patched⟩ := outcome
  · exact .pure _
  · exact .pure _
  · obtain ⟨stay, hc, hstay⟩ := (h.poses hpose).exists_carries_startPose hd hmoved hsite hpatch
    exact (ho.write hc hs fun x hx _ => hstay x hx).bind (.pure _)

/-! Taking over what the host did -/

theorem checkChange (ho : o.Faithful) (s : Session) (c : TextChange) :
    Follows (o.checkChange s c) (plain.checkChange s c) :=
  (ho.fits c s.text).bind (.ite (fun _ => .pure _) fun _ => .pure _)

theorem takePlanned (ho : o.Faithful) {plan : RescanPlan}
    (hdrift : Follows (o.drift s.routine plan.driftFrom plan.drift)
      (plain.drift s.routine plan.driftFrom plan.drift)) :
    Follows (o.takePlanned s plan) (plain.takePlanned s plan) := by
  unfold Operations.takePlanned
  cases s.routine.validate plan.edit with
  | error e => exact .pure _
  | ok _ =>
    refine hdrift.bind ((ho.editRoutine _ _ _).bind ?_)
    split
    · exact .pure _
    · exact .pure _
    · exact (ho.followSelection _ _).bind ((ho.editMessage _ _).bind (.pure _))

theorem takeChange (ho : o.Faithful) {c : TextChange} (h : s.Kept) (hf : c.fits s.text = true)
    (hs : (c.apply s.text).size ≤ maxPlace) (supply : IdSupply) :
    Follows ((o.takeChange s c).run supply) ((s.takeChange c).run supply) := by
  refine .after (.lift_state (ho.change hf) supply) fun text supply₁ htext => ?_
  obtain ⟨rfl, rfl⟩ := Prod.mk.inj htext
  cases hd : s.desynced with
  | true => exact .pure _
  | false =>
    obtain ⟨sites, hsites, ha⟩ := h.inStep hd
    obtain ⟨v⟩ := Rescan.nonempty_surroundings ha hf
    refine .after (ho.plan (ho.access _) hf (fun a hm => ha.isPlace_of_site hsites hm) _)
      fun plan supply₂ hplan => .lift_state (ho.takePlanned ?_) _
    have hrun := Session.run_plan hsites v supply
    obtain rfl := (Prod.mk.inj (hplan.symm.trans hrun)).1
    exact ho.drift v ha hs hsites

theorem takeChanges (ho : o.Faithful) (h : s.Kept) (cs : List TextChange)
    (hs : ∀ t ∈ TextChange.reached s.text cs, t.size ≤ maxPlace) (messages : List ViewMessage)
    (supply : IdSupply) :
    Follows ((o.takeChanges s cs messages).run supply)
      ((s.takeChanges cs messages).run supply) := by
  induction cs generalizing s messages supply with
  | nil => exact .pure _
  | cons c cs ih =>
    refine .after (.lift_state (ho.checkChange s c) supply) fun x supply₁ hx => ?_
    obtain ⟨rfl, rfl⟩ : s.checkChange c = x ∧ supply = supply₁ := Prod.mk.inj hx
    cases hcheck : s.checkChange c with
    | error e => exact .pure _
    | ok _ =>
      have hf : c.fits s.text = true := by
        by_contra hf
        rw [Session.checkChange_of_not_fits (by simpa using hf)] at hcheck
        cases hcheck
      rw [TextChange.reached, if_pos hf, List.forall_mem_cons] at hs
      refine .after (ho.takeChange h hf hs.1 supply) fun y supply₂ hy => ?_
      obtain e | ⟨t, told⟩ := y
      · exact .pure _
      · obtain ⟨hkept, htext⟩ := h.takeChange hf hs.1 hy
        exact ih hkept (by rw [htext]; exact hs.2) _ _

theorem resync (ho : o.Faithful) (s : Session) (supply : IdSupply) :
    Follows ((o.resync s).run supply) (s.resync.run supply) := by
  refine .after (ho.scanSteps _ _ supply) fun scanned supply₁ _ => ?_
  split
  · exact .pure _
  · refine .after (.lift_state (ho.editRoutine _ _ _) supply₁) fun x supply₂ _ => ?_
    cases x with
    | error e => exact .pure _
    | ok p => exact .pure _

theorem conclude (ho : o.Faithful) (s : Session) (taken : Except SessionError (List ViewMessage))
    (supply : IdSupply) :
    Follows ((o.conclude s taken).run supply) ((s.conclude taken).run supply) := by
  cases taken with
  | error e => exact .pure _
  | ok messages =>
    unfold Session.conclude Operations.conclude
    cases hd : s.desynced with
    | false => exact .pure _
    | true =>
      refine .after (ho.resync s supply) fun x supply₁ _ => ?_
      cases x with
      | none => exact .pure _
      | some t => exact .pure _

theorem notice (ho : o.Faithful) (h : s.Kept) (n : HostNotice)
    (hs : ∀ t ∈ TextChange.reached s.text n.changes, t.size ≤ maxPlace) (supply : IdSupply) :
    Follows ((o.notice s n).run supply) ((s.notice n).run supply) := by
  unfold Session.notice Operations.notice
  cases n.echo.filter fun seq => s.pending.contains seq with
  | some seq => exact .pure _
  | none => exact .after (ho.takeChanges h _ hs _ supply) fun _ _ _ => ho.conclude _ _ _

/-! Requests -/

theorem respond (ho : o.Faithful) (h : s.Kept) (q : Session.Request) (supply : IdSupply)
    (hs : ∀ t ∈ s.heldTexts q supply, t.size ≤ maxPlace) :
    Follows ((o.respond s q).run supply) ((s.respond q).run supply) := by
  have hsame : ∀ {α : Type} {x : Except SessionError (Session × α)},
      (s.orSame x).text.size ≤ maxPlace → ∀ t a, x = .ok (t, a) → t.text.size ≤ maxPlace := by
    rintro α x hx t a rfl
    exact hx
  cases q with
  | notice n => exact .after (ho.notice h n hs supply) fun _ _ _ => .pure _
  | edit e =>
    exact .after (.lift_state (ho.edit h e (hsame (hs _ List.mem_cons_self))) supply)
      fun _ _ _ => .pure _
  | undo =>
    exact .after (.lift_state (ho.revisit h .back (hsame (hs _ List.mem_cons_self))) supply)
      fun _ _ _ => .pure _
  | redo =>
    exact .after (.lift_state (ho.revisit h .forth (hsame (hs _ List.mem_cons_self))) supply)
      fun _ _ _ => .pure _
  | setStartPose pose =>
    exact .after (.lift_state (ho.setStartPose h pose (hs _ List.mem_cons_self)) supply)
      fun _ _ _ => .pure _
  | select which => exact .pure _
  | clearSelection => exact .pure _

end Operations.Faithful

namespace Checked

def start (t : Text) : StateT IdSupply Option (Except SessionError Session) := operations.start t

def respond (s : Session) (q : Session.Request) : StateT IdSupply Option Session :=
  operations.respond s q

end Checked

end RoutineSync

namespace RoutineSync.Session

/-- In step, what is highlighted is part of the text. -/
theorem Kept.exists_slice_highlight {s : Session} (h : s.Kept) (hd : s.desynced = false)
    {index : Nat} {param : Option String} {range : ByteRange}
    (hr : s.highlight? index param = some range) :
    ∃ x, s.text.slice? range.start range.stop = some x := by
  obtain ⟨step, hstep, hr⟩ := Option.bind_eq_some_iff.1 hr
  obtain ⟨site, hsite, hr⟩ := Option.bind_eq_some_iff.1 hr
  obtain ⟨sites, hsites, ha⟩ := h.inStep hd
  have hstands := ha.standsIn_of_site hsites (List.mem_of_getElem? hstep) hsite
  obtain ⟨u, v, ht, hu⟩ := hstands.stands
  cases param with
  | none =>
    obtain rfl := Option.some.inj hr
    exact ⟨site.text, Text.slice?_eq_some_iff.2 ⟨hstands.stands, hstands.stop_eq.symm⟩⟩
  | some name =>
    obtain ⟨part, hpart, rfl⟩ := Option.map_eq_some_iff.1 hr
    obtain ⟨x, y, z, hxyz, hpart, -⟩ := hstands.proper.inside _ (NameMap.mem_of_get? hpart)
    dsimp only at hxyz hpart
    refine ⟨y, Text.slice?_eq_some_iff.2 ⟨⟨u ++ x, z ++ v, by rw [ht, hxyz]; simp, ?_⟩, ?_⟩⟩
    · rw [Text.size_append, hu, hpart]
    · rw [hpart, Nat.add_assoc]

/-- The texts that a session holds on the way through requests. -/
def heldThroughout (s : Session) (supply : IdSupply) : List Request → List Text
  | [] => []
  | q :: qs =>
    let (t, supply') := (s.respond q).run supply
    s.heldTexts q supply ++ t.heldThroughout supply' qs

theorem Kept.follows {m : Type → Type} [Monad m] [LawfulMonad m] {o : Operations m}
    (ho : o.Faithful) {s : Session} {supply : IdSupply} (h : s.Kept) (qs : List Request)
    (hs : ∀ t ∈ s.heldThroughout supply qs, t.size ≤ maxPlace) :
    Follows ((qs.foldlM o.respond s).run supply) ((qs.foldlM Session.respond s).run supply) ∧
      ((qs.foldlM Session.respond s).run supply).1.Kept := by
  induction qs generalizing s supply with
  | nil => exact ⟨.pure _, h⟩
  | cons q qs ih =>
    obtain ⟨hfirst, hrest⟩ := List.forall_mem_append.1 hs
    obtain ⟨hrun, hkept⟩ := @ih ((s.respond q).run supply).1 ((s.respond q).run supply).2
      (h.respond q supply hfirst) hrest
    rw [List.foldlM_cons, List.foldlM_cons]
    refine ⟨.after (ho.respond h q supply hfirst) fun t supply' ht => ?_, hkept⟩
    have ht : (s.respond q).run supply = (t, supply') := ht
    rw [ht] at hrun
    exact hrun

/-- Whatever document a session is started with and whatever is then asked of it, it stops nowhere:
its checked reading comes to the same end. What is highlighted then is part of the text. -/
theorem checked_of_requests {t : Text} {s : Session} {supply supply' : IdSupply}
    (hstart : (Session.start t).run supply = (.ok s, supply')) (qs : List Request)
    (hs : ∀ u ∈ s.heldThroughout supply' qs, u.size ≤ maxPlace) :
    (Checked.start t).run supply = some (.ok s, supply') ∧
      (qs.foldlM Checked.respond s).run supply' = some ((qs.foldlM Session.respond s).run supply') ∧
      ∀ u, u = ((qs.foldlM Session.respond s).run supply').1 → u.desynced = false →
        ∀ index param range, u.highlight? index param = some range →
          ∃ x, u.text.slice? range.start range.stop = some x := by
  obtain ⟨hrun, hkept⟩ := (Kept.start hstart).follows Checked.faithful qs hs
  refine ⟨(Checked.faithful.start t supply).trans (congrArg some hstart), hrun, ?_⟩
  rintro u rfl hd index param range hr
  exact hkept.exists_slice_highlight hd hr

/-- A change out of range is refused, and a step comes with a place that is none. -/
theorem checked_of_requests_astray :
    let t : Text := "auton::setPose(0, 0, 0);".toList
    let qs : List Request := [
      .notice ⟨none, [⟨0, 0, "// é\n".toList⟩, ⟨4, 0, []⟩]⟩,
      .notice ⟨none, [⟨maxPlace, maxPlace, []⟩]⟩,
      .select (.index 0),
      .edit (.insert 1 [⟨⟨7⟩, .shoot, some ⟨maxPlace, 3, [], []⟩⟩]),
      .undo]
    ∃ (s : Session) (supply' : IdSupply), (Session.start t).run ⟨0⟩ = (.ok s, supply') ∧
      (∀ u ∈ s.heldThroughout supply' qs, u.size ≤ maxPlace) ∧
      (qs.foldlM Checked.respond s).run supply'
        = some ((qs.foldlM Session.respond s).run supply') := by
  intro t qs
  have hall : (match (Session.start t).run ⟨0⟩ with
      | (.ok s, supply') => (s.heldThroughout supply' qs).all fun u => u.size ≤ maxPlace
      | _ => false) = true := by
    decide +kernel
  cases hstart : (Session.start t).run ⟨0⟩ with
  | mk x supply =>
    rw [hstart] at hall
    cases x with
    | error e => simp at hall
    | ok s =>
      simp only [List.all_eq_true, decide_eq_true_eq] at hall
      exact ⟨s, supply, rfl, hall, (checked_of_requests hstart qs hall).2.1⟩

end RoutineSync.Session
