import RoutineSync.Proofs.Session.Recall
import RoutineSync.Proofs.Sync.Reverted
/-!
Undoing an insertion, in a text in which every call has its line for itself. The steps are as before,
and so is the text, except behind a last call that ends it.
-/
set_option autoImplicit false

namespace RoutineSync

open Rewrite (layLines map_layLines TakenBack)

theorem Routine.done_edit_insert {r t : Routine} {index : Nat} {xs : List Step} {origin : Origin}
    {event : RoutineEvent} (h : r.edit (.insert index xs) origin = .ok (some event, t)) :
    t.journal.done = .insert index xs :: r.journal.done := by
  obtain ⟨-, ⟨-, hnone, -⟩ | ⟨-, c, journal, event, hexecute, hannounce, -⟩⟩ := edit_eq_ok h
  · exact absurd hnone nofun
  · obtain ⟨items, hstep, rfl⟩ := Journal.execute_eq_ok_iff.1 hexecute
    obtain ⟨-, rfl, -⟩ := Command.step_eq_ok_iff.1 hstep
    rw [← (Prod.mk.inj hannounce).2]
    rfl

/-- Taking out what was put in gives back what was there, also when all of it was rewritten
meanwhile. -/
theorem Splice.run_back_map {α : Type} {f : α → α} {index : Nat} {xs ys : List α}
    (h : index ≤ ys.length) :
    Splice.run ⟨index, xs.length, []⟩ ((Splice.run ⟨index, 0, xs⟩ ys).map f) = ys.map f := by
  have hfits : Splice.Fits ⟨index, 0, xs.map f⟩ (ys.map f) := by simpa [Splice.Fits] using h
  have := (Splice.run_reverse hfits).2.1
  simpa [Splice.run, Splice.reverse, Splice.removed] using this

namespace Session
variable {s t : Session} {e : RoutineEdit}

/-- Whether the last call ends the text. -/
def endsWithCall (s : Session) : Bool :=
  (s.steps.getLast?.bind (·.site)).any fun a => a.stop == s.text.size

theorem endsWithCall_eq {sites : List CallSite} (h : s.steps.map (·.site) = sites.map some) :
    s.endsWithCall = sites.getLast?.any (·.stop == s.text.size) := by
  have hlast := congrArg List.getLast? h
  rw [List.getLast?_map, List.getLast?_map] at hlast
  unfold endsWithCall
  cases hs : s.steps.getLast? with
  | none =>
    rw [hs] at hlast
    rw [Option.map_eq_none_iff.1 hlast.symm]
    rfl
  | some x =>
    rw [hs] at hlast
    obtain ⟨a, ha, hxa⟩ := Option.map_eq_some_iff.1 hlast.symm
    rw [ha, Option.bind_some, ← show some a = x.site from hxa]

theorem exists_perform_of_ok {r : Rewrite} {event : RoutineEvent} {routine : Routine}
    {change : Routine → Except RoutineError (Option RoutineEvent × Routine)}
    (hr : Rewrite.synthesize s.steps e (.byCount s.text) = .ok r)
    (hchange : change s.routine = .ok (some event, routine)) :
    ∃ u told, s.perform e change = .ok (u, some told) ∧ u.text = TextEdit.applyAll r.edits s.text ∧
      u.routine = (({ s with routine } : Session).write r).routine := by
  refine ⟨_, _, perform_of_ok hr hchange, ?_⟩
  rw [commit_eq]
  exact ⟨rfl, rfl⟩

theorem edit_insert_eq_ok {index : Nat} {xs : List Step} {out : Option (HostEdit × ViewMessage)}
    (h : s.edit (.insert index xs) = .ok (t, out)) (hne : xs ≠ []) :
    s.desynced = false ∧ t.desynced = false ∧
      ∃ r event routine, Rewrite.synthesize s.steps (.insert index xs) (.byCount s.text) = .ok r ∧
        s.routine.edit (.insert index xs) .view = .ok (some event, routine) ∧
        t.text = TextEdit.applyAll r.edits s.text ∧
        t.routine = (({ s with routine } : Session).write r).routine := by
  cases edits_of_eq h with
  | idle _ _ hidle =>
    exact absurd (by simpa [RoutineEdit.isIdle, RoutineEdit.insert] using hidle) hne
  | performed hd _ hidle hperform =>
    cases performs_of_eq hperform with
    | idle _ hedit =>
      obtain ⟨-, ⟨hidle', -⟩ | ⟨-, _, _, _, -, -, hsome⟩⟩ := Routine.edit_eq_ok hedit
      · exact absurd (hidle.symm.trans hidle') Bool.false_ne_true
      · cases hsome
    | written hr hedit hcommit =>
      rw [commit_eq] at hcommit
      cases hcommit
      exact ⟨hd, hd, _, _, _, hr, hedit, rfl, rfl⟩

theorem steps_write_insert {steps xs : List Step} {sites : List CallSite} {r : Rewrite} {left p : Text}
    {index place : Nat} {es : List TextEdit} (htaken : TakenBack s.text sites xs r left p place es)
    (hindex : index ≤ steps.length) (hsteps : s.steps = Splice.run ⟨index, 0, xs⟩ steps)
    (hn : (s.steps.map (·.id)).Nodup) :
    ((s.write r).steps.drop index).take xs.length
        = (layLines p place xs).map (fun q => { q.1 with site := some q.2 }) ∧
      Splice.run ⟨index, xs.length, []⟩ (s.write r).steps
        = steps.map fun x => { x with site := x.site.map r.remap } := by
  have hkeys : r.sites.map (·.1) = xs.map (·.id) := by
    rw [htaken.sites_eq, List.map_map, ← map_layLines p place xs, List.map_map]
    rw [map_layLines]
    rfl
  have hids := hn
  rw [hsteps, Splice.run, Nat.add_zero, List.append_assoc,
    (List.perm_append_comm_assoc _ _ _).map _ |>.nodup_iff,
    List.take_append_drop, List.map_append, List.nodup_append] at hids
  obtain ⟨hnew, -, hdisjoint⟩ := hids
  have hwrite := steps_write hn (hkeys ▸ hnew)
  constructor
  · rw [hwrite, hsteps, ← List.map_drop, ← List.map_take, Splice.run, List.append_assoc,
      List.drop_left' (List.length_take_of_le hindex), List.take_left]
    conv => lhs; rw [← map_layLines p place xs, List.map_map]
    refine List.map_congr_left fun q hq => ?_
    have hsite : (q.1.id, q.2) ∈ r.sites := htaken.sites_eq ▸ List.mem_map.2 ⟨q, hq, rfl⟩
    have := Rewrite.siteOf?_eq_some (hkeys ▸ hnew) hsite
    simp [this]
  · rw [hwrite, hsteps, Splice.run_back_map hindex]
    refine List.map_congr_left fun x hx => ?_
    have : r.siteOf? x.id = none := Rewrite.siteOf?_eq_none fun hid =>
      hdisjoint _ (hkeys ▸ hid) _ (List.mem_map.2 ⟨x, hx, rfl⟩) rfl
    simp [this]

/-- The removal that takes an insertion back is the first step to undo. -/
theorem peekUndo_write_insert {routine : Routine} {event : RoutineEvent} {index : Nat} {xs : List Step}
    {origin : Origin} (h : s.routine.edit (.insert index xs) origin = .ok (some event, routine))
    (r : Rewrite) :
    (({ s with routine } : Session).write r).routine.peekUndo = some (.remove index xs.length) := by
  have hdone : (({ s with routine } : Session).write r).routine.journal.done
      = .insert index xs :: s.routine.journal.done := by
    rw [← Routine.done_edit_insert h]
    exact routine_write (f := fun u => u.journal.done) (fun _ _ => rfl)
      (fun hset => by obtain ⟨_, -, rfl⟩ := Option.map_eq_some_iff.1 hset; rfl) _ r
  rw [Routine.peekUndo, Routine.peek, Journal.peek, Journal.ahead, hdone]
  rfl

/-- Steps that are moved by one rewriting and back by another are as they were. -/
theorem steps_write_back {steps : List Step} {sites : List CallSite} {xs : List Step} {r : Rewrite}
    {left p : Text} {place : Nat} {es : List TextEdit}
    (htaken : TakenBack s.text sites xs r left p place es) (hsites : steps.map (·.site) = sites.map some)
    (hn : (steps.map (·.id)).Nodup)
    (ht : t.steps = steps.map fun x => { x with site := x.site.map r.remap }) :
    (t.write ⟨es, []⟩).steps = steps := by
  have hids : (t.steps.map (·.id)).Nodup := by
    rw [ht, List.map_map]
    exact hn
  rw [steps_write (r := ⟨es, []⟩) hids .nil, ht, List.map_map]
  refine (List.map_congr_left fun x hx => ?_).trans (List.map_id steps)
  obtain ⟨a, hm, hxa⟩ := Step.exists_site hsites hx
  obtain ⟨id, action, site⟩ := x
  obtain rfl : site = some a := hxa
  have hback : Rewrite.remap ⟨es, []⟩ (r.remap a) = a := by
    show CallSite.mk (TextEdit.landStart es (TextEdit.landStart r.edits a.start))
      (TextEdit.landEnd es (TextEdit.landEnd r.edits a.stop)) a.text a.params = a
    rw [htaken.start_eq a hm, htaken.stop_eq a hm]
  exact congrArg (fun b => Step.mk id action (some b)) hback

/-- What is left behind an insertion that is undone: a newline, where several calls were written
behind one that ended the text. -/
def leftover (s : Session) (e : RoutineEdit) : Text :=
  if e.index = s.steps.length ∧ 2 ≤ e.steps.length ∧ s.endsWithCall then ['\n'] else []

theorem exists_undo_insert {index : Nat} {xs : List Step} {out : Option (HostEdit × ViewMessage)}
    (hs : s.Attended) (hl : ∀ x ∈ s.steps, ∀ a ∈ x.site, a.Lined s.text) (hne : xs ≠ [])
    (he : s.edit (.insert index xs) = .ok (t, out)) (hsize : t.text.size ≤ maxPlace) :
    ∃ u told, t.undo = .ok (u, some told) ∧ u.steps = s.steps ∧
      u.text = s.text ++ s.leftover (.insert index xs) := by
  have hquotable := quotable_of_edit hs.quotable he
  have hkept := hs.kept
  obtain ⟨hd, hd', r, event, routine, hr, hedit, htext, hroutine⟩ := edit_insert_eq_ok he hne
  -- the lines written and the edits that cut them out again
  obtain ⟨sites, hsites, ha⟩ := hkept.inStep hd
  have hsome : sites ≠ [] := by
    rintro rfl
    exact Routine.steps_ne_nil hkept.sound (List.map_eq_nil_iff.1 hsites)
  have hlined : ∀ a ∈ sites, a.Lined s.text := by
    intro a hm
    obtain ⟨x, hx, hxa⟩ := List.mem_map.1 (hsites ▸ List.mem_map_of_mem (f := some) hm)
    exact hl x hx a hxa
  obtain ⟨p, place, es, htaken⟩ :=
    Rewrite.exists_takenBack hsome hsites ha hlined hne hr (htext ▸ hsize)
  have hindex : index ≤ s.steps.length := (Routine.tells_edit hedit).fits
  obtain ⟨hnew, hback⟩ := steps_write_insert (s := { s with routine }) htaken hindex
    (Routine.steps_edit hedit) (Routine.ids_nodup (hkept.sound.edit hedit))
  have hsteps : t.steps = (({ s with routine } : Session).write r).steps :=
    congrArg Routine.steps hroutine
  rw [← hsteps] at hnew hback
  have hpeek : t.routine.peekUndo = some (.remove index xs.length) :=
    hroutine ▸ peekUndo_write_insert hedit r
  obtain ⟨event, routine', hundo⟩ := Routine.Throughout.exists_retrace hquotable hpeek
  have htells := Routine.tells_retrace hpeek hundo
  have hlength : (layLines p place xs).length = xs.length := by
    rw [← List.length_map, map_layLines]
  have hremoval := Rewrite.synthesize_removal (layLines p place xs) (.byCount t.text)
    (hlength.symm ▸ htells.fits) (hlength.symm ▸ hnew) (htext ▸ htaken.arranged_eq)
  rw [hlength] at hremoval
  obtain ⟨u, told', hperform', hutext, huroutine⟩ := exists_perform_of_ok (s := t) hremoval hundo
  refine ⟨u, told', (revisit_of_announced hd' hpeek).trans hperform', ?_, ?_⟩
  · exact (congrArg Routine.steps huroutine).trans
      (steps_write_back (t := { t with routine := routine' }) htaken hsites
        (Routine.ids_nodup hkept.sound) (htells.steps_eq.trans hback))
  · have hends := endsWithCall_eq hsites
    have hcount : sites.length = s.steps.length := by simpa using (congrArg List.length hsites).symm
    rw [hutext, htext, htaken.text_eq, leftover, hends, ← hcount]
    rfl

/-- An insertion that is undone leaves the steps as they were, each at its place, and the text too,
up to what is left over. -/
theorem undo_insertion {out : Option (HostEdit × ViewMessage)} (hs : s.Attended)
    (hl : ∀ x ∈ s.steps, ∀ a ∈ x.site, a.Lined s.text) (he : s.edit e = .ok (t, out)) (hc : e.count = 0)
    (hsize : t.text.size ≤ maxPlace) :
    (e.steps = [] ∧ t = s ∧ out = none) ∨
      ∃ u told, t.undo = .ok (u, some told) ∧ u.steps = s.steps ∧ u.text = s.text ++ s.leftover e := by
  obtain ⟨index, count, xs⟩ := e
  obtain rfl : count = 0 := hc
  by_cases hne : xs = []
  · subst hne
    cases edits_of_eq he with
    | idle _ _ _ => exact .inl ⟨rfl, rfl, rfl⟩
    | performed _ _ hidle _ => exact absurd hidle (by simp [RoutineEdit.isIdle])
  · exact .inr (exists_undo_insert hs hl hne he hsize)

/-- Two calls behind an indented one. -/
theorem undo_insertion_indented :
    let e : RoutineEdit := .insert 1 [⟨⟨7⟩, .wait 1, none⟩, ⟨⟨8⟩, .wait 2, none⟩]
    ∃ (s t u : Session) (out : Option (HostEdit × ViewMessage)) (told : HostEdit × ViewMessage),
      s.Attended ∧ (∀ x ∈ s.steps, ∀ a ∈ x.site, a.Lined s.text) ∧
      s.edit e = .ok (t, out) ∧ t.text.size ≤ maxPlace ∧ t.undo = .ok (u, some told) ∧
      u.steps = s.steps ∧ u.text = s.text := by
  intro e
  have hall : ((Session.start "\tauton::setPose(0, 0, 0);\n".toList).run ⟨0⟩).1.toOption.any (fun s =>
      s.steps.all (fun x => x.site.all fun a => a.start == 1 && '\t' :: a.text ++ ['\n'] == s.text)
        && s.leftover e == []
        && (s.edit e).toOption.any (fun p => p.1.text.size ≤ maxPlace)) = true := by
    decide +kernel
  obtain ⟨s, hs, hall⟩ := (Option.any_eq_true _ _).1 hall
  rw [Result.toOption_eq_some_iff] at hs
  simp only [Bool.and_eq_true, List.all_eq_true, Option.all_eq_true, Option.any_eq_true,
    decide_eq_true_eq, beq_iff_eq, Result.toOption_eq_some_iff] at hall
  obtain ⟨⟨hlines, hleft⟩, ⟨t, out⟩, he, hsize⟩ := hall
  have hattended : s.Attended := .start (Prod.ext hs rfl)
  have hlined : ∀ x ∈ s.steps, ∀ a ∈ x.site, a.Lined s.text := by
    intro x hx a hxa
    obtain ⟨hstart, htext⟩ := hlines x hx a hxa
    exact ⟨[], ['\t'], ['\n'], htext.symm, hstart, .inl rfl, by simp [Rewrite.Indent], .inr ⟨[], rfl⟩⟩
  obtain ⟨hnil, -⟩ | ⟨u, told, hundo, hsteps, htext⟩ := undo_insertion hattended hlined he rfl hsize
  · exact absurd hnil nofun
  · rw [hleft, List.append_nil] at htext
    exact ⟨s, t, u, out, told, hattended, hlined, he, hsize, hundo, hsteps, htext⟩

/-- Two calls behind one that ends the text: the newline before them stays. -/
theorem undo_insertion_leaves_newline :
    let e : RoutineEdit := .insert 1 [⟨⟨7⟩, .wait 1, none⟩, ⟨⟨8⟩, .wait 2, none⟩]
    ∃ (s t u : Session) (out : Option (HostEdit × ViewMessage)) (told : HostEdit × ViewMessage),
      ((Session.start "auton::setPose(0, 0, 0);".toList).run ⟨0⟩).1 = .ok s ∧
      s.Attended ∧ (∀ x ∈ s.steps, ∀ a ∈ x.site, a.Lined s.text) ∧ s.edit e = .ok (t, out) ∧
      t.undo = .ok (u, some told) ∧ u.text = s.text ++ ['\n'] := by
  intro e
  have hall : ((Session.start "auton::setPose(0, 0, 0);".toList).run ⟨0⟩).1.toOption.any (fun s =>
      s.steps.all (fun x => x.site.all fun a => a.start == 0 && a.text == s.text)
        && s.leftover e == ['\n']
        && (s.edit e).toOption.any (fun p => p.1.text.size ≤ maxPlace)) = true := by
    decide +kernel
  obtain ⟨s, hs, hall⟩ := (Option.any_eq_true _ _).1 hall
  rw [Result.toOption_eq_some_iff] at hs
  simp only [Bool.and_eq_true, List.all_eq_true, Option.all_eq_true, Option.any_eq_true,
    beq_iff_eq, decide_eq_true_eq, Result.toOption_eq_some_iff] at hall
  obtain ⟨⟨hlines, hleft⟩, ⟨t, out⟩, he, hsize⟩ := hall
  have hattended : s.Attended := .start (Prod.ext hs rfl)
  have hlined : ∀ x ∈ s.steps, ∀ a ∈ x.site, a.Lined s.text := by
    intro x hx a hxa
    obtain ⟨hstart, hcall⟩ := hlines x hx a hxa
    exact ⟨[], [], [], by simp [hcall], hstart, .inl rfl, by simp [Rewrite.Indent], .inl rfl⟩
  obtain ⟨u, told, hundo, -, htext⟩ := exists_undo_insert hattended hlined (by decide) he hsize
  exact ⟨s, t, u, out, told, hs, hattended, hlined, he, hundo, hleft ▸ htext⟩

end Session

end RoutineSync
