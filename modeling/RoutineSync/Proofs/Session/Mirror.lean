import RoutineSync.Proofs.Session.Answers
/-!
A view that carries out what it is told holds the routine of the session, apart from where its calls
stand, whenever the session is in step.
-/
set_option autoImplicit false

namespace RoutineSync

namespace ViewMessage

/-- What a view holds that is told messages one after another; none if it would have to replace steps
that it does not hold. -/
def follow : List ViewMessage → List Step → Option (List Step)
  | [], held => some held
  | .snapshot steps _ :: told, _ => follow told steps
  | .edit _ _ index count steps :: told, held =>
    if index + count ≤ held.length then follow told (Splice.run ⟨index, count, steps⟩ held) else none

theorem follow_append (told later : List ViewMessage) (held : List Step) :
    follow (told ++ later) held = (follow told held).bind (follow later) := by
  induction told generalizing held with
  | nil => rfl
  | cons message told ih =>
    cases message with
    | snapshot steps selection => exact ih steps
    | edit seq origin index count steps =>
      rw [List.cons_append, follow, follow]
      split
      · exact ih _
      · rfl

end ViewMessage

namespace Session
open ViewMessage

def Mirrors (held : List Step) (s : Session) : Prop :=
  s.desynced = false → held.map Step.entry = s.steps.map Step.entry

theorem mirrors_of_desynced {s : Session} (hd : s.desynced = true) (held : List Step) :
    Mirrors held s := fun h => absurd (hd.symm.trans h) nofun

/-- The message of an event carries over what the edit installs, as the routine has it now. -/
theorem follow_editMessage {t : Session} {before routine : Routine} {e : RoutineEdit}
    {event : RoutineEvent} {held : List Step} (htells : event.Tells e before routine)
    (ht : t.routine.entries = routine.entries) (hheld : held.map Step.entry = before.entries) :
    ∃ held', follow [t.editMessage event] held = some held' ∧ Mirrors held' t := by
  have hlength : held.length = before.size := by
    have := congrArg List.length hheld
    rwa [Routine.entries, List.length_map, List.length_map] at this
  have hrange : event.index + event.removed.length ≤ held.length := by
    rw [htells.index_eq, htells.length_removed, hlength]
    exact htells.fits
  rw [editMessage_eq]
  refine ⟨_, if_pos hrange, fun _ => ?_⟩
  -- the view holds what the edit was made in, so the same splice leads to what it made
  let splice : Splice (ActionId × Action) := ⟨e.index, e.count, e.steps.map Step.entry⟩
  have hfits : splice.Fits before.entries := by
    show e.index + e.count ≤ (before.steps.map Step.entry).length
    rw [List.length_map]
    exact htells.fits
  have hnow : t.steps.map Step.entry = splice.run before.entries := by
    have := congrArg (List.map Step.entry) htells.steps_eq
    rw [← Splice.map_run] at this
    exact ht.trans this
  have hinstalled : ((splice.run before.entries).drop e.index).take e.steps.length
      = splice.inserted := by
    have := (Splice.run_reverse hfits).2.2
    rwa [Splice.removed, Splice.reverse,
      show splice.inserted.length = e.steps.length from List.length_map _] at this
  rw [← Splice.map_run, hheld, Splice.map, List.map_take, List.map_drop, hnow, htells.index_eq,
    htells.length_removed, htells.length_inserted, hinstalled]

theorem Takes.mirrors {s t : Session} {c : TextChange} {told : List ViewMessage} {held : List Step}
    (h : s.Takes c t told) (hheld : Mirrors held s) :
    ∃ held', follow told held = some held' ∧ Mirrors held' t := by
  cases h with
  | blind hd => exact ⟨held, rfl, mirrors_of_desynced hd held⟩
  | lost hd => exact ⟨held, rfl, mirrors_of_desynced rfl held⟩
  | idle hd hentries _ => exact ⟨held, rfl, fun _ => (hheld hd).trans hentries.symm⟩
  | @edited before routine e event _ hd hentries _ htells ht =>
    obtain ⟨selection, hselection⟩ := followSelection_eq
      ({ s with text := c.apply s.text, routine } : Session) event
    rw [← ht, hselection]
    exact follow_editMessage htells rfl ((hheld hd).trans hentries.symm)

theorem TakesAll.mirrors {s t : Session} {cs : List TextChange} {told : List ViewMessage}
    {held : List Step} (h : s.TakesAll cs t told) (hheld : Mirrors held s) :
    ∃ held', follow told held = some held' ∧ Mirrors held' t := by
  induction h generalizing held with
  | nil => exact ⟨held, rfl, hheld⟩
  | cons _ hrun _ ih =>
    obtain ⟨held₁, hfollow₁, hheld₁⟩ := (takes_of_run hrun).mirrors hheld
    obtain ⟨held₂, hfollow₂, hheld₂⟩ := ih hheld₁
    refine ⟨held₂, ?_, hheld₂⟩
    rw [follow_append, hfollow₁]
    exact hfollow₂

theorem Writes.mirrors {s t : Session} {host : HostEdit} {message : ViewMessage} {held : List Step}
    (h : s.Writes t host message) (hheld : Mirrors held s) :
    ∃ held', follow [message] held = some held' ∧ Mirrors held' t := by
  obtain ⟨hd, hr, htells, -, hcommit⟩ := h
  rename_i e r event routine
  rw [commit_eq] at hcommit
  cases hcommit
  exact follow_editMessage htells (entries_write { s with routine } r) (hheld hd)

def toldBy : Except SessionError Answer → List ViewMessage
  | .ok a => a.view
  | .error _ => []

def refusesChange : Except SessionError Answer → Bool
  | .error (.invalidChange _ _) => true
  | _ => false

theorem Answers.mirrors {s t : Session} {q : Request} {x : Except SessionError Answer}
    {held : List Step} (h : s.Answers q t x) (hheld : Mirrors held s) :
    ∃ held', follow (toldBy x) held = some held' ∧ (refusesChange x = false → Mirrors held' t) := by
  cases h with
  | noticed hnotices =>
    cases hnotices with
    | echo _ _ => exact ⟨held, rfl, fun _ => hheld⟩
    | refused _ _ _ _ => exact ⟨held, rfl, fun hx => absurd hx nofun⟩
    | taken _ hall _ =>
      obtain ⟨held', hfollow, hheld'⟩ := hall.mirrors hheld
      exact ⟨held', hfollow, fun _ => hheld'⟩
    | lost _ _ hd => exact ⟨held, rfl, fun _ => mirrors_of_desynced hd held⟩
    -- whatever the view has missed, it takes the whole list
    | regained _ _ _ _ => exact ⟨t.steps, rfl, fun _ _ => rfl⟩
  | refused => exact ⟨held, rfl, fun _ => hheld⟩
  | silent => exact ⟨held, rfl, fun _ => hheld⟩
  | written hwrites =>
    obtain ⟨held', hfollow, hheld'⟩ := hwrites.mirrors hheld
    exact ⟨held', hfollow, fun _ => hheld'⟩

/-- Sessions with a view that was given a snapshot and has been told everything since, while no
notice was refused for a change that does not fit. -/
inductive Followed : Session → List Step → Prop where
  | snapshot {s : Session} {held : List Step} : follow [s.snapshot] [] = some held → Followed s held
  | told {s t : Session} {held held' : List Step} {q : Request} {x : Except SessionError Answer}
      {supply supply' : IdSupply} : Followed s held → q.isTold = true →
      (s.answer q).run supply = ((t, x), supply') → refusesChange x = false →
      follow (toldBy x) held = some held' → Followed t held'

theorem Followed.mirrors {s : Session} {held : List Step} (h : Followed s held) :
    Mirrors held s := by
  induction h with
  | snapshot h =>
    cases h
    exact fun _ => rfl
  | @told s t held held' q x supply supply' _ hq hrun hx hfollow ih =>
    obtain ⟨t', x', supply'', hrun', hanswers⟩ := s.exists_answers hq supply
    -- the answer is one of the known outcomes, and following it has one result
    cases hrun.symm.trans hrun'
    obtain ⟨held'', hfollow', hheld⟩ := hanswers.mirrors ih
    cases hfollow.symm.trans hfollow'
    exact hheld hx

/-- In every run the view holds the identities and actions of the session's steps whenever the
session is in step, and whatever it is told next is in range of what it holds. -/
theorem mirrors_of_followed {s : Session} {held : List Step} (h : Followed s held) :
    (s.desynced = false →
        held.map (fun y => (y.id, y.action)) = s.steps.map fun y => (y.id, y.action)) ∧
      ∀ (q : Request) (supply : IdSupply), q.isTold = true →
        ∃ held', follow (toldBy ((s.answer q).run supply).1.2) held = some held' := by
  refine ⟨h.mirrors, fun q supply hq => ?_⟩
  obtain ⟨t, x, supply', hrun, hanswers⟩ := s.exists_answers hq supply
  obtain ⟨held', hfollow, -⟩ := hanswers.mirrors h.mirrors
  rw [hrun]
  exact ⟨held', hfollow⟩

/-- The pose is lost and comes back, a step is inserted, and the view could then follow an undo. -/
theorem mirrors_of_followed_regained :
    let lose : Request := .notice ⟨none, [⟨0, 5, []⟩]⟩
    let regain : Request := .notice ⟨none, [⟨0, 0, "auton".toList⟩]⟩
    let shoot : Request := .edit (.insert 1 [⟨⟨7⟩, .shoot, none⟩])
    ∃ s₀ s₁ s₂ s₃ : Session, ∃ held : List Step,
      ((Session.start "auton::setPose(0, 0, 0);".toList).run ⟨0⟩).1 = .ok s₀ ∧
      s₁ = ((s₀.answer lose).run ⟨1⟩).1.1 ∧ s₂ = ((s₁.answer regain).run ⟨1⟩).1.1 ∧
      s₃ = ((s₂.answer shoot).run ⟨2⟩).1.1 ∧ s₁.desynced = true ∧ s₃.desynced = false ∧
      s₃.steps.length = 2 ∧ Followed s₃ held ∧
      held.map (fun y => (y.id, y.action)) = s₃.steps.map (fun y => (y.id, y.action)) ∧
      ∃ held', follow (toldBy ((s₃.answer .undo).run ⟨2⟩).1.2) held = some held' := by
  intro lose regain shoot
  have hall : ((Session.start "auton::setPose(0, 0, 0);".toList).run ⟨0⟩).1.toOption.any (fun s₀ =>
      let r₁ := ((s₀.answer lose).run ⟨1⟩).1
      let r₂ := ((r₁.1.answer regain).run ⟨1⟩).1
      let r₃ := ((r₂.1.answer shoot).run ⟨2⟩).1
      !refusesChange r₁.2 && !refusesChange r₂.2 && !refusesChange r₃.2 && r₁.1.desynced
        && !r₃.1.desynced && r₃.1.steps.length == 2) = true := by
    decide +kernel
  obtain ⟨s₀, hstart, hall⟩ := (Option.any_eq_true _ _).1 hall
  simp only [Bool.and_eq_true, Bool.not_eq_true', beq_iff_eq] at hall
  obtain ⟨⟨⟨⟨⟨hx₁, hx₂⟩, hx₃⟩, hlost⟩, hd⟩, hlength⟩ := hall
  have h₀ : Followed s₀ s₀.steps := .snapshot rfl
  obtain ⟨held₁, hfollow₁⟩ := (mirrors_of_followed h₀).2 lose ⟨1⟩ rfl
  have h₁ := @Followed.told _ _ _ _ lose _ ⟨1⟩ _ h₀ rfl rfl hx₁ hfollow₁
  obtain ⟨held₂, hfollow₂⟩ := (mirrors_of_followed h₁).2 regain ⟨1⟩ rfl
  have h₂ := @Followed.told _ _ _ _ regain _ ⟨1⟩ _ h₁ rfl rfl hx₂ hfollow₂
  obtain ⟨held₃, hfollow₃⟩ := (mirrors_of_followed h₂).2 shoot ⟨2⟩ rfl
  have h₃ := @Followed.told _ _ _ _ shoot _ ⟨2⟩ _ h₂ rfl rfl hx₃ hfollow₃
  obtain ⟨hheld, hnext⟩ := mirrors_of_followed h₃
  exact ⟨s₀, _, _, _, held₃, Result.toOption_eq_some_iff.1 hstart, rfl, rfl, rfl, hlost, hd,
    hlength, h₃, hheld hd, hnext .undo ⟨2⟩ rfl⟩

end Session

end RoutineSync
