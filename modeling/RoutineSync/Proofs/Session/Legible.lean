import RoutineSync.Proofs.Session.Agreement
import RoutineSync.Proofs.Session.Refusals
import RoutineSync.Proofs.Sync.Told
/-!
Sessions whose text can be read: a scan of it finds the steps, each one as it is written. Edits by the
view keep them so, as long as their actions do not say the word that calls start with.
-/
set_option autoImplicit false

namespace RoutineSync

namespace Session
variable {s t : Session}

/-- A scan of the text finds the steps, and nothing but their calls could be found in it. -/
structure Legible (s : Session) : Prop where
  told : List.Forall₂ Step.Matches s.steps (scan s.text)
  text : s.text.Legible

theorem Legible.of_told (hsync : s.InStep) (h : Told s.text s.steps) : s.Legible := by
  obtain ⟨sites, hsites, ha⟩ := hsync
  obtain ⟨htold, htext⟩ := h.legible hsites ha
  exact ⟨htold, htext⟩

theorem Legible.of_agrees (h : s.Agrees) (ht : s.text.Legible) : s.Legible := by
  have hsame : List.Forall₂ (fun x c => (x.action, x.site) = (c.action, some c.site)) s.steps (scan s.text) :=
    List.forall₂_map_left_iff.1 (List.forall₂_map_right_iff.1 (List.forall₂_eq_eq_eq ▸ h))
  have hfilled : ∀ x ∈ s.steps, x.action.eqv x.action.filled = true := fun x hx => by
    obtain ⟨c, hc, heq⟩ := exists_of_forall₂ hsame hx
    rw [(Prod.mk.inj heq).1]
    exact (foundIn_of_mem_scan hc).eqv_filled
  refine ⟨(List.forall₂_and_left _ _ |>.2 ⟨hfilled, hsame⟩).imp fun x c h => ?_, ht⟩
  obtain ⟨heqv, heq⟩ := h
  obtain ⟨haction, hsite⟩ := Prod.mk.inj heq
  exact ⟨hsite, haction ▸ heqv⟩

/-- Where steps are told, they are once an edit of them is written. -/
theorem told_write {steps : List Step} {sites : List CallSite} {e : RoutineEdit} {r : Rewrite}
    (h : Told s.text steps) (hsites : steps.map (·.site) = sites.map some) (ha : Anchored s.text sites)
    (hr : Rewrite.synthesize steps e (.byCount s.text) = .ok r)
    (hsteps : s.steps = Splice.run ⟨e.index, e.count, e.steps⟩ steps) (hn : (s.steps.map (·.id)).Nodup)
    (hs : (TextEdit.applyAll r.edits s.text).size ≤ maxPlace)
    (hsilent : ∀ x ∈ (s.write r).steps, x.action.Silent) : Told (s.write r).text (s.write r).steps := by
  obtain ⟨-, m, hm⟩ := Rewrite.exists_synthesis_of_sites hsites hr
  have hparts := parts_eq sites e.index e.count
  have hedit := nodup_installed hsteps hn
  have hwritten := steps_write_run m (hparts.symm ▸ ha.marked) hsteps hn hs
  obtain ⟨hworded, hpatched⟩ := h.worded hsites ha (fun x hx => by
    refine hsilent { x with site := some (Rewrite.Synthesis.settled r x.id) } ?_
    rw [hwritten]
    exact List.mem_append_left _ (List.mem_append_right _ (List.mem_map_of_mem hx))) m hm
  have hmoved : ∀ x ∈ steps, ∀ a, x.site.map r.remap = some a →
      CallText.Tells ⟨a.text, a.params⟩ x.action := by
    intro x hx a hxa
    obtain ⟨b, hxb, rfl⟩ := Option.map_eq_some_iff.1 hxa
    exact h.tells x hx b hxb
  refine ⟨fun n => ?_, ?_⟩
  · rw [sitesOf_eq (sites_write_run hsites m ha.marked hsteps hn hs)]
    exact hworded.opens_iff hedit hs fun n => by rw [hparts, h.opens, sitesOf_eq hsites]
  · rw [hwritten]
    intro x hx
    simp only [List.mem_append, List.mem_map] at hx
    rcases hx with (⟨y, hy, rfl⟩ | ⟨y, hy, rfl⟩) | ⟨y, hy, rfl⟩
    · exact hmoved y (List.mem_of_mem_take hy)
    · rintro a ⟨rfl⟩
      exact m.tells_settled hedit (hparts.symm ▸ ha.marked) hs hpatched hy
    · exact hmoved y (List.mem_of_mem_drop hy)

theorem Writes.legible {host : HostEdit} {message : ViewMessage} (h : s.Writes t host message) (hk : s.Kept)
    (hl : s.Legible) (hs : t.text.size ≤ maxPlace) (hsilent : ∀ x ∈ t.steps, x.action.Silent) :
    t.desynced = false ∧ t.Legible := by
  obtain ⟨hd, hr, htells, hsound, hcommit⟩ := h
  rename_i e r event routine
  obtain ⟨sites, hsites, ha⟩ := hk.inStep hd
  rw [commit_eq] at hcommit
  cases hcommit
  have hn := Routine.ids_nodup (hsound hk.sound)
  have hsteps : ({ s with routine } : Session).steps = _ := htells.steps_eq
  exact ⟨hd, .of_told (inStep_write (s := { s with routine }) hsites ha hr hsteps hn hs)
    (told_write (s := { s with routine }) (Told.of_legible hl.told hl.text) hsites ha hr hsteps hn hs hsilent)⟩

theorem Gives.legible {x : Outcome} {out : Option (HostEdit × ViewMessage)} (h : s.Gives x) (hk : s.Kept)
    (hd : s.desynced = false) (hl : s.Legible) (hx : x = .ok (t, out)) (hs : t.text.size ≤ maxPlace)
    (hsilent : ∀ x ∈ t.steps, x.action.Silent) : t.desynced = false ∧ t.Legible := by
  rcases h t out hx with ⟨rfl, -⟩ | ⟨host, message, -, hwrites⟩
  · exact ⟨hd, hl⟩
  · exact hwrites.legible hk hl hs hsilent

theorem told_write_startPose {first : Step} {rest : List Step} {a site : CallSite} {as : List CallSite}
    {before : Action} {edits : List TextEdit}
    (h : Told s.text ({ first with action := before } :: rest)) (hsteps : s.steps = first :: rest)
    (hn : (s.steps.map (·.id)).Nodup) (hsite : first.site = some a) (hsites : rest.map (·.site) = as.map some)
    (ha : Anchored s.text (a :: as)) (hpatch : a.patchTo before first.action = .ok (edits, site))
    (hs : (TextEdit.applyAll edits s.text).size ≤ maxPlace) (hsilent : first.action.Silent) :
    let r : Rewrite := ⟨edits, [(first.id, site)]⟩
    Told (s.write r).text (s.write r).steps := by
  intro r
  have hst := ha.stands a List.mem_cons_self
  have hp := CallSite.patchesTo_of_patchTo hst.proper hst.stop_eq hpatch
  have htells := h.tells _ List.mem_cons_self a hsite
  have hstarts : sitesOf ({ first with action := before } :: rest) = a :: as := sitesOf_eq (by
    rw [List.map_cons, List.map_cons, hsites, hsite])
  refine ⟨fun n => ?_, ?_⟩
  · have hopens := (hp.carries ha).opens_iff (n := n) (fun e he => ⟨_, List.mem_cons_self, he⟩) (fun x hx => ?_)
      hs fun m => ?_
    · rw [sitesOf_eq (sites_write_startPose hn hsteps hsites)]
      refine hopens.trans ?_
      have hfirst : TextEdit.landStart edits a.start = site.start := by
        rw [hp.landStart_eq ha hs, hp.start_eq]
      simp only [List.exists_mem_cons_iff, List.mem_map, exists_exists_and_eq_and, hfirst]
      rfl
    · rcases List.mem_cons.1 hx with rfl | hx
      · exact htells.reworded_or_anew hpatch hsilent
      · obtain ⟨b, -, rfl⟩ := List.mem_map.1 hx
        exact Rewrite.reworded_nil b
    · rw [h.opens, hstarts]
      simp only [List.exists_mem_cons_iff, List.mem_map, exists_exists_and_eq_and]
  · rw [steps_write_startPose hn hsteps]
    intro x hx b hb
    rcases List.mem_cons.1 hx with rfl | hx
    · obtain rfl := Option.some.inj hb
      exact htells.patchTo hpatch
    · obtain ⟨y, hy, rfl⟩ := List.mem_map.1 hx
      obtain ⟨c, hyc, rfl⟩ := Option.map_eq_some_iff.1 hb
      exact h.tells y (List.mem_cons_of_mem _ hy) c hyc

theorem Poses.legible {out : Option HostEdit} (h : s.Poses t (.ok out)) (hk : s.Kept)
    (hd : s.desynced = false) (hl : s.Legible) (hs : t.text.size ≤ maxPlace)
    (hsilent : ∀ x ∈ t.steps, x.action.Silent) : t.desynced = false ∧ t.Legible := by
  have htold := Told.of_legible hl.told hl.text
  cases h with
  | @unwritten pose previous routine _ hpose hunwritten hsame =>
    refine ⟨hd, .of_told ((hk.poses hpose).inStep hd) ?_⟩
    obtain ⟨first, rest, action, hsteps, hmoved⟩ := Routine.steps_setStartPose hpose
    show Told s.text routine.steps
    change Told s.text s.routine.steps at htold
    rw [hsteps] at htold
    rw [hmoved]
    refine ⟨htold.opens, fun x hx a hxa => ?_⟩
    rcases List.mem_cons.1 hx with rfl | hx
    · have hout : out = none := by
        cases out with
        | none => rfl
        | some host => exact absurd rfl (hunwritten host)
      obtain ⟨site, hpatch⟩ := hsame (congrArg _ hout) first rest action a hsteps hmoved hxa
      exact (htold.tells first List.mem_cons_self a hxa).of_patchTo_nil hpatch
    · exact htold.tells x (List.mem_cons_of_mem _ hx) a hxa
  | @written _ _ routine first rest action a site edits _ host _ hpose hsteps hmoved hsite hpatch
      hissue =>
    obtain ⟨sites, hsites, ha⟩ := hk.inStep hd
    have hp := (hk.patchesTo hd hsteps hsite hpatch).1
    have hmid := hk.poses hpose
    rw [hsteps] at hsites htold
    rw [List.map_cons, hsite] at hsites
    cases sites with
    | nil => exact absurd hsites nofun
    | cons b as =>
      obtain ⟨hb, hrest⟩ := List.cons.inj hsites
      obtain rfl := Option.some.inj hb
      have hwritten := @steps_write_startPose { s with routine } { first with action } rest site edits
        (Routine.ids_nodup hmid.sound) hmoved
      cases hissue
      exact ⟨hd, .of_told
        (@Kept.write_startPose _ { first with action } rest a site edits hmid (hmid.inStep hd) hmoved hsite hp hs)
        (@told_write_startPose { s with routine } { first with action } rest a site as first.action edits htold
          hmoved (Routine.ids_nodup hmid.sound) hsite hrest ha hpatch hs
          (hsilent { first with action, site := some site } (hwritten ▸ List.mem_cons_self)))⟩

/-- What a view asks of a session, where the session does it. -/
inductive Revises (s : Session) : Session → Prop where
  | edit {e : RoutineEdit} {t : Session} {out : Option (HostEdit × ViewMessage)} :
      s.edit e = .ok (t, out) → Revises s t
  | undo {t : Session} {out : Option (HostEdit × ViewMessage)} : s.undo = .ok (t, out) → Revises s t
  | redo {t : Session} {out : Option (HostEdit × ViewMessage)} : s.redo = .ok (t, out) → Revises s t
  | setStartPose {pose : Pose} {t : Session} {host : Option HostEdit} :
      s.setStartPose pose = (t, .ok host) → Revises s t

/-- One revision keeps the text legible. -/
theorem Revises.legible (h : s.Revises t) (hk : s.Kept) (hd : s.desynced = false) (hl : s.Legible)
    (hs : t.text.size ≤ maxPlace) (hsilent : ∀ x ∈ t.steps, x.action.Silent) :
    t.Kept ∧ t.desynced = false ∧ t.Legible := by
  cases h with
  | edit h => exact ⟨(gives_edit s _).kept hk h hs, (gives_edit s _).legible hk hd hl h hs hsilent⟩
  | undo h => exact ⟨(gives_revisit .back s).kept hk h hs, (gives_revisit .back s).legible hk hd hl h hs hsilent⟩
  | redo h => exact ⟨(gives_revisit .forth s).kept hk h hs, (gives_revisit .forth s).legible hk hd hl h hs hsilent⟩
  | setStartPose h => exact ⟨hk.setStartPose h hs, (poses_of_setStartPose h).legible hk hd hl hs hsilent⟩

/-- Revisions one after another, of texts with places for all of them and of actions that do not say the
word that calls start with. -/
inductive Revised (s : Session) : Session → Prop where
  | refl : Revised s s
  | step {t u : Session} : Revised s t → t.Revises u → u.text.size ≤ maxPlace →
      (∀ x ∈ u.steps, x.action.Silent) → Revised s u

/-- Where a scan of the text finds the steps, with no block comments in their calls, and the word that
calls start with stands nowhere else, it finds them after edits by the view, undoing, redoing and
moving the starting pose. -/
theorem legible_of_revised (hs : s.Attended) (hd : s.desynced = false) (hl : s.Legible) (h : s.Revised t) :
    t.desynced = false ∧ t.Legible := by
  have hall : t.Kept ∧ t.desynced = false ∧ t.Legible := by
    induction h with
    | refl => exact ⟨hs.kept, hd, hl⟩
    | step _ hrevises hsize hsilent ih =>
      obtain ⟨hk, hd, hl⟩ := ih
      exact hrevises.legible hk hd hl hsize hsilent
  exact hall.2

/-- Two calls are written, one of them with the default of a parameter that is left out, and then the pose
is moved. -/
theorem legible_of_revised_filled :
    ∃ s t : Session, s.Attended ∧ s.desynced = false ∧ s.Legible ∧ s.Revised t ∧
      s.text = "auton::setPose(0, 0, 0);".toList ∧
      t.text = "auton::setPose(12, 0, 0);\nauton::moveTo(24, 0, 1000, 200, true);\nauton::shoot();".toList ∧
      t.Legible := by
  let pose : Text := "auton::setPose(0, 0, 0);".toList
  let insert : RoutineEdit := .insert 1
    [⟨⟨7⟩, .moveTo (.ofInt 24) .zero 1000 none (some true), none⟩, ⟨⟨8⟩, .shoot, none⟩]
  let silent : Session → Bool := fun s => s.text.size ≤ maxPlace
    && s.steps.all fun x => x.action.params.all fun e => ¬"auton".toList <:+: e.2.source
  have hall : ((Session.start pose).run ⟨0⟩).1.toOption.any (fun s =>
      s.text == pose && !s.desynced && (s.edit insert).toOption.any fun p =>
        let q := p.1.setStartPose ⟨.ofInt 12, .zero, .zero⟩
        silent p.1 && silent q.1 && q.2.toOption.isSome && q.1.text
          == "auton::setPose(12, 0, 0);\nauton::moveTo(24, 0, 1000, 200, true);\nauton::shoot();".toList) = true := by
    decide +kernel
  obtain ⟨s, hstart, hall⟩ := (Option.any_eq_true _ _).1 hall
  simp only [Bool.and_eq_true, beq_iff_eq, Bool.not_eq_true'] at hall
  obtain ⟨⟨htext, hd⟩, hall⟩ := hall
  obtain ⟨p, hedit, hall⟩ := (Option.any_eq_true _ _).1 hall
  rw [Result.toOption_eq_some_iff] at hstart hedit
  generalize hmoved : p.1.setStartPose ⟨.ofInt 12, .zero, .zero⟩ = q at hall
  simp only [Bool.and_eq_true, beq_iff_eq] at hall
  obtain ⟨⟨⟨hp, hq⟩, hsome⟩, htext'⟩ := hall
  obtain ⟨host, hhost⟩ := Option.isSome_iff_exists.1 hsome
  rw [Result.toOption_eq_some_iff] at hhost
  have hsilent : ∀ {u : Session}, silent u = true →
      u.text.size ≤ maxPlace ∧ ∀ x ∈ u.steps, x.action.Silent := by
    intro u hu
    simp only [silent, Bool.and_eq_true, decide_eq_true_eq, List.all_eq_true] at hu
    exact ⟨hu.1, fun x hx e he n hn => hu.2 x hx e he hn.isInfix⟩
  have hlegible : s.Legible := by
    refine .of_agrees ((Current.start (Prod.ext hstart rfl)).agrees hd) ?_
    rw [htext]
    have hfound : (scan pose).any (fun c => c.site.start == 0) = true := by decide +kernel
    obtain ⟨c, hc, hstart⟩ := List.any_eq_true.1 hfound
    refine Text.legible_of_sole (by decide +kernel) fun n hn => ⟨c, hc, ?_⟩
    rcases (Text.opens_append_iff (u := "auton".toList) (v := "::setPose(0, 0, 0);".toList) (.inr rfl)).1 hn with
      hn | ⟨k, -, hn⟩
    · rw [Text.opens_word_iff.1 hn, beq_iff_eq.1 hstart]
    · exact absurd hn.isInfix (by decide)
  have hrevised : s.Revised q.1 :=
    .step (.step .refl (.edit hedit) (hsilent hp).1 (hsilent hp).2)
      (.setStartPose (hmoved.trans (Prod.ext rfl hhost))) (hsilent hq).1 (hsilent hq).2
  have hattended : s.Attended := .start (Prod.ext hstart rfl)
  exact ⟨s, q.1, hattended, hd, hlegible, hrevised, htext, htext', (legible_of_revised hattended hd hlegible hrevised).2⟩

end Session

end RoutineSync
