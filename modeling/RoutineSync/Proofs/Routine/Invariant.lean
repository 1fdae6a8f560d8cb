import RoutineSync.Proofs.History.Throughout
import RoutineSync.Proofs.Result
import RoutineSync.Routine.Basic
/-!
What every routine keeps: it starts with a pose, no identity occurs twice, and its history can be
walked in both directions. Writes in place leave identities and kinds alone, so the lists on the
way through the history are known by these.
-/
set_option autoImplicit false

namespace RoutineSync

/-- What writes in place do not change of a step. -/
def Step.outline (s : Step) : ActionId × ActionKind := (s.id, s.kind)

abbrev Outline := List (ActionId × ActionKind)

theorem Step.ids_outline (steps : List Step) :
    (steps.map Step.outline).map (·.1) = steps.map (·.id) := by
  simp [Step.outline]

structure Outline.Valid (o : Outline) : Prop where
  start : ∃ id rest, o = (id, .setPose) :: rest
  distinct : (o.map (·.1)).Nodup

namespace Routine

def outline (r : Routine) : Outline := r.steps.map Step.outline

theorem validate_eq_ok_iff {r : Routine} {e : RoutineEdit} :
    r.validate e = .ok () ↔
      e.index + e.count ≤ r.size ∧
      (e.index = 0 → e.isIdle = false → ∃ s ∈ e.steps.head?, s.kind.establishesPose = true) ∧
      (e.steps.map (·.id)).Nodup ∧
      ∀ s ∈ e.steps,
        s.id ∉ (r.steps.take e.index ++ r.steps.drop (e.index + e.count)).map (·.id) := by
  rw [← checkIds_eq_ok_iff, ← checkRange_eq_ok_iff, validate,
    Result.check_eq_ok_iff, Result.mapError_eq_ok_iff]
  refine and_congr_right fun _ => ?_
  by_cases hi : e.index = 0 ∧ e.isIdle = false
  · cases hs : e.steps with
    | nil => simp [hi, bind, Except.bind, throw, throwThe, MonadExceptOf.throw]
    | cons s ss =>
      by_cases hp : s.kind.establishesPose = true <;>
        simp [hi, hp, bind, Except.bind, throw, throwThe, MonadExceptOf.throw]
  · have hn : ¬ (e.index = 0 ∧ (!e.isIdle) = true) := by simpa using hi
    simp only [if_neg hn, bind, Except.bind]
    exact ⟨fun h => ⟨fun h0 h1 => absurd ⟨h0, h1⟩ hi, h⟩, fun h => h.2⟩

theorem forward_commandOf (e : RoutineEdit) (len : Nat) :
    (commandOf e).forward len = ⟨e.index, e.count, e.steps⟩ := by
  unfold commandOf
  split
  · rename_i h; simp [Command.forward, h]
  · split
    · rename_i h; simp [Command.forward, List.isEmpty_iff.1 h]
    · rfl

theorem items_of_execute {j k : Journal Step} {c d : Command Step} (h : j.execute c = .ok (d, k)) :
    k.items = (c.forward j.items.length).run j.items := by
  obtain ⟨items, hstep, rfl⟩ := Journal.execute_eq_ok_iff.1 h
  exact (Command.step_eq_ok_iff.1 hstep).2.2.symm

theorem edit_eq_ok {r t : Routine} {e : RoutineEdit} {origin : Origin} {x : Option RoutineEvent}
    (h : r.edit e origin = .ok (x, t)) :
    r.validate e = .ok () ∧
      ((e.isIdle = true ∧ x = none ∧ t = r) ∨
        (e.isIdle = false ∧ ∃ c journal event, r.journal.execute (commandOf e) = .ok (c, journal) ∧
          { r with journal }.announce origin e.index ((r.steps.drop e.index).take e.count) e.steps
            = (event, t) ∧ x = some event)) := by
  obtain ⟨⟨⟩, hv, h⟩ := Result.run_bind_eq_ok_iff.1 h
  refine ⟨hv, ?_⟩
  split at h
  · rename_i hi
    obtain ⟨rfl, rfl⟩ := Prod.mk.inj (Except.ok.inj h)
    exact .inl ⟨hi, rfl, rfl⟩
  · rename_i hi
    rw [Result.run_bind_lift] at h
    obtain ⟨⟨c, journal⟩, hx, h⟩ := Result.run_bind_eq_ok_iff.1 h
    obtain ⟨rfl, rfl⟩ := Prod.mk.inj (Except.ok.inj h)
    exact .inr ⟨by simpa using hi, c, journal, _, Result.mapError_eq_ok_iff.1 hx, rfl, rfl⟩

theorem journal_announce (r : Routine) (origin : Origin) (index : Nat)
    (removed inserted : List Step) :
    (r.announce origin index removed inserted).2.journal = r.journal := rfl

/-- The event that tells of a step through the history, and the routine that has told it. -/
def announceSplice (before : Routine) (journal : Journal Step) (splice : Splice Step) :
    RoutineEvent × Routine :=
  { before with journal }.announce .history splice.index (splice.removed before.steps)
    ((journal.items.drop splice.index).take splice.inserted.length)

section
variable {r : Routine} {d : Direction} {j : Journal Step}

theorem retrace_of_none (h : r.journal.walk d = .ok (none, j)) : r.retrace d = .ok (none, r) := by
  have hpeek : r.peek d = none := congrArg (Option.map _) (Journal.peek_of_walk h)
  rw [retrace, Operations.retrace, hpeek]
  rfl

theorem retrace_of_some {s : Splice Step} (h : r.journal.walk d = .ok (some s, j)) :
    r.retrace d = .ok (some (r.announceSplice j s).1, (r.announceSplice j s).2) := by
  have hpeek : r.peek d = some (.ofSplice s) := congrArg (Option.map _) (Journal.peek_of_walk h)
  rw [retrace, Operations.retrace, hpeek]
  refine Result.run_bind_eq_ok_iff.2 ⟨_, rfl, Result.run_bind_eq_ok_iff.2 ⟨(some s, j), ?_, rfl⟩⟩
  exact Result.mapError_eq_ok_iff.2 h

end

end Routine

def Drift.moved (d : Drift) (a : CallSite) : CallSite :=
  { a with start := (d.apply a.range).start, stop := (d.apply a.range).stop }

namespace Routine
variable {α : Type} {f : Step → α} {P : List α → Prop} {r t : Routine}

theorem drift_eq (r : Routine) (n : Nat) (d : Drift) :
    r.drift n d = r.withSteps (r.steps.take n ++ (r.steps.drop n).map fun s =>
      { s with site := s.site.map d.moved }) := by
  have hstep : ∀ s : Step, (Operations.plain.driftStep d s).run
      = { s with site := s.site.map d.moved } := by
    rintro ⟨id, action, _ | site⟩ <;> rfl
  have hmoved := List.idRun_mapM (l := r.steps.drop n) (f := Operations.plain.driftStep d)
  simp only [hstep] at hmoved
  exact congrArg (fun moved => r.withSteps (r.steps.take n ++ moved)) hmoved

/-- Writes in place do not show in what does not depend on the place. -/
theorem map_mapSites (hf : ∀ s site, f { s with site } = f s) (r : Routine) (i : Nat)
    (g : CallSite → CallSite) : (r.mapSites i g).journal.map f = r.journal.map f := by
  apply Journal.map_mapItems
  intro n s
  split
  · exact hf s _
  · rfl

theorem map_drift (hf : ∀ s site, f { s with site } = f s) (r : Routine) (n : Nat) (d : Drift) :
    (r.drift n d).journal.map f = r.journal.map f := by
  rw [drift_eq]
  refine congrArg (fun items => (⟨items, _, _⟩ : Journal α)) ?_
  have hitems : r.journal.items = r.steps.take n ++ r.steps.drop n :=
    (List.take_append_drop n r.steps).symm
  rw [hitems, withSteps, List.map_append, List.map_append, List.map_map]
  exact congrArg _ (List.map_congr_left fun s _ => hf s _)

theorem map_setSite? (hf : ∀ s site, f { s with site } = f s) {id : ActionId}
    {site : Option CallSite} (h : r.setSite? id site = some t) :
    t.journal.map f = r.journal.map f := by
  obtain ⟨index, -, rfl⟩ := Option.map_eq_some_iff.1 h
  apply Journal.map_mapItems
  intro n s
  split
  · exact hf s _
  · rfl

/-- The pose of the first step is replaced in place. -/
theorem setStartPose_eq_ok_iff {pose previous : Pose} :
    r.setStartPose pose = .ok (previous, t) ↔ ∃ first rest radians, r.steps = first :: rest ∧
      first.action = .setPose previous radians ∧
      t = { r with journal := r.journal.set 0 { first with action := .setPose pose radians } } := by
  unfold setStartPose
  constructor
  · intro h
    split at h
    · exact absurd h nofun
    · rename_i first rest hsteps
      split at h
      · rename_i old radians haction
        obtain ⟨rfl, rfl⟩ := Prod.mk.inj (Except.ok.inj h)
        exact ⟨first, rest, radians, hsteps, haction, rfl⟩
      · exact absurd h nofun
  · rintro ⟨first, rest, radians, hsteps, haction, rfl⟩
    rw [hsteps]
    dsimp only
    rw [haction]

theorem map_setStartPose (hf : ∀ s p q radians, s.action = .setPose p radians →
      f { s with action := .setPose q radians } = f s) {pose previous : Pose}
    (h : r.setStartPose pose = .ok (previous, t)) : t.journal.map f = r.journal.map f := by
  obtain ⟨first, rest, radians, hsteps, haction, rfl⟩ := setStartPose_eq_ok_iff.1 h
  have hitems : r.journal.items = first :: rest := hsteps
  simp [Journal.map, Journal.set, hitems, hf first previous pose radians haction]

/-- Every list that the history leads through, seen through `f`. -/
def Throughout (f : Step → α) (P : List α → Prop) (r : Routine) : Prop :=
  (r.journal.map f).Throughout P

namespace Throughout

theorem edit {e : RoutineEdit} {origin : Origin} {x : Option RoutineEvent} (hr : r.Throughout f P)
    (h : r.edit e origin = .ok (x, t)) (ht : P (t.steps.map f)) : t.Throughout f P := by
  obtain ⟨-, ⟨-, -, rfl⟩ | ⟨-, c, journal, event, hx, ha, -⟩⟩ := edit_eq_ok h
  · exact hr
  · obtain rfl : t.journal = journal := by
      rw [← show _ = t from congrArg Prod.snd ha, journal_announce]
    have hm := Journal.map_execute f r.journal (commandOf e)
    rw [hx] at hm
    exact Journal.Throughout.execute hr hm ht

theorem retrace (hr : r.Throughout f P) (d : Direction) :
    ∃ x t, r.retrace d = .ok (x, t) ∧ t.Throughout f P := by
  obtain ⟨s, j, hj, hk⟩ := Journal.Throughout.walk_of_map hr d
  cases s with
  | none => exact ⟨none, r, retrace_of_none hj, hr⟩
  | some s => exact ⟨_, _, retrace_of_some hj, hk⟩

theorem fits_of_splice {s : Splice Step} (hfits : (s.map f).Fits (r.journal.map f).items)
    (hP : P ((s.map f).run (r.journal.map f).items)) :
    s.index + s.count ≤ r.steps.length ∧ P ((s.run r.steps).map f) := by
  have hlength : (r.journal.map f).items.length = r.steps.length := List.length_map f
  exact ⟨hlength ▸ hfits, Splice.map_run f s r.steps ▸ hP⟩

theorem peek (hr : r.Throughout f P) {d : Direction} {e : RoutineEdit} (h : r.peek d = some e) :
    e.index + e.count ≤ r.steps.length ∧
      P ((Splice.run ⟨e.index, e.count, e.steps⟩ r.steps).map f) := by
  obtain ⟨s, hs, rfl⟩ := Option.map_eq_some_iff.1 h
  have hpeek := Journal.map_peek f d r.journal
  rw [hs] at hpeek
  obtain ⟨hfits, hP⟩ := Journal.Throughout.peek hr hpeek
  exact fits_of_splice hfits hP

end Throughout

end Routine

namespace Routine

def history (r : Routine) : Journal (ActionId × ActionKind) := r.journal.map Step.outline

/-- Every list that the history leads through is that of a routine. -/
def Sound (r : Routine) : Prop := r.history.Throughout Outline.Valid

theorem items_history (r : Routine) : r.history.items = r.outline := rfl

theorem history_mapSites (r : Routine) (i : Nat) (f : CallSite → CallSite) :
    (r.mapSites i f).history = r.history := r.map_mapSites (fun _ _ => rfl) i f

theorem history_drift (r : Routine) (i : Nat) (d : Drift) : (r.drift i d).history = r.history :=
  r.map_drift (fun _ _ => rfl) i d

theorem history_setSite? {r t : Routine} {id : ActionId} {site : Option CallSite}
    (h : r.setSite? id site = some t) : t.history = r.history := map_setSite? (fun _ _ => rfl) h

theorem history_setStartPose {r t : Routine} {pose previous : Pose}
    (h : r.setStartPose pose = .ok (previous, t)) : t.history = r.history := by
  refine map_setStartPose (fun s p q radians hs => ?_) h
  simp [Step.outline, Step.kind, hs, Action.kind]

theorem valid_of_checks {steps : List Step} (hs : checkStart steps = .ok ())
    (hi : checkIds [] steps = .ok ()) : Outline.Valid (steps.map Step.outline) := by
  obtain ⟨s, hm, hp⟩ := checkStart_eq_ok_iff.1 hs
  obtain ⟨ss, rfl⟩ := List.head?_eq_some_iff.1 hm
  refine ⟨⟨s.id, ss.map Step.outline, ?_⟩, by
    rw [Step.ids_outline]; exact (checkIds_eq_ok_iff.1 hi).1⟩
  simp only [ActionKind.establishesPose, beq_iff_eq] at hp
  simp [Step.outline, hp]

theorem valid_run {r : Routine} {e : RoutineEdit} (hr : r.outline.Valid)
    (hv : r.validate e = .ok ()) (hi : e.isIdle = false) :
    Outline.Valid ((Splice.run ⟨e.index, e.count, e.steps⟩ r.steps).map Step.outline) := by
  obtain ⟨hfit, hstart, hnew, hold⟩ := validate_eq_ok_iff.1 hv
  obtain ⟨⟨id, rest, ho⟩, hd⟩ := hr
  constructor
  · by_cases h0 : e.index = 0
    · obtain ⟨s, hm, hp⟩ := hstart h0 hi
      obtain ⟨ss, hs⟩ := List.head?_eq_some_iff.1 hm
      simp only [ActionKind.establishesPose, beq_iff_eq] at hp
      exact ⟨s.id, _, by simp [Splice.run, h0, hs, Step.outline, hp]; rfl⟩
    · obtain ⟨n, hn⟩ := Nat.exists_eq_succ_of_ne_zero h0
      simp only [outline] at ho
      simp only [Splice.run, List.map_append, List.map_take, ho, hn, Nat.succ_eq_add_one,
        List.take_succ_cons, List.cons_append]
      exact ⟨id, _, rfl⟩
  · have hsub : (r.steps.take e.index ++ r.steps.drop (e.index + e.count)).Sublist r.steps := by
      conv => rhs; rw [← List.take_append_drop e.index r.steps]
      rw [← List.drop_drop]
      exact List.Sublist.append (List.Sublist.refl _) (List.drop_sublist _ _)
    have hrest : ((r.steps.take e.index ++ r.steps.drop (e.index + e.count)).map (·.id)).Nodup := by
      rw [outline, Step.ids_outline] at hd
      exact (hsub.map _).nodup hd
    have hp : (Splice.run ⟨e.index, e.count, e.steps⟩ r.steps).Perm
        (e.steps ++ (r.steps.take e.index ++ r.steps.drop (e.index + e.count))) := by
      simp only [Splice.run, ← List.append_assoc]
      exact List.Perm.append_right _ List.perm_append_comm
    rw [Step.ids_outline, (hp.map _).nodup_iff, List.map_append, List.nodup_append]
    refine ⟨hnew, hrest, ?_⟩
    intro a ha b hb hab
    obtain ⟨s, hs, rfl⟩ := List.mem_map.1 ha
    exact hold s hs (hab ▸ hb)

theorem Sound.edit {r t : Routine} {e : RoutineEdit} {origin : Origin} {x : Option RoutineEvent}
    (hr : r.Sound) (h : r.edit e origin = .ok (x, t)) : t.Sound := by
  refine Throughout.edit hr h ?_
  obtain ⟨hv, ⟨-, -, rfl⟩ | ⟨hi, c, journal, event, hx, ha, -⟩⟩ := edit_eq_ok h
  · exact hr.now
  · have hvalid := valid_run hr.now hv hi
    have hitems := items_of_execute hx
    rw [forward_commandOf] at hitems
    rwa [steps, ← show _ = t from congrArg Prod.snd ha, journal_announce, hitems]

theorem Sound.retrace {r : Routine} (hr : r.Sound) (d : Direction) :
    ∃ x t, r.retrace d = .ok (x, t) ∧ t.Sound :=
  Throughout.retrace hr d

inductive Request where
  | replace (edit : RoutineEdit) (origin : Origin)
  | insert (index : Nat) (steps : List Step) (origin : Origin)
  | remove (index count : Nat) (origin : Origin)
  | append (steps : List Step) (origin : Origin)
  | undo
  | redo
  | setStartPose (pose : Pose)
  | drift (fromIndex : Nat) (d : Drift)
  | mapSites (f : CallSite → CallSite)
  | setSite (id : ActionId) (site : Option CallSite)

/-- The routine after something that may be refused, which changes nothing then. -/
def orSame {α : Type} (r : Routine) : Except RoutineError (α × Routine) → Routine
  | .ok (_, t) => t
  | .error _ => r

def respond (r : Routine) : Request → Routine
  | .replace e origin => r.orSame (r.edit e origin)
  | .insert index steps origin => r.orSame (r.edit (.insert index steps) origin)
  | .remove index count origin => r.orSame (r.edit (.remove index count) origin)
  | .append steps origin => r.orSame (r.append steps origin)
  | .undo => r.orSame r.undo
  | .redo => r.orSame r.redo
  | .setStartPose pose => r.orSame (r.setStartPose pose)
  | .drift fromIndex d => r.drift fromIndex d
  | .mapSites f => r.mapSites 0 f
  | .setSite id site => (r.setSite? id site).getD r

/-- How routines come about. -/
inductive Fresh : Routine → Prop where
  | starting (pose : Pose) (supply : IdSupply) : Fresh ((starting pose).run supply).1
  | ofSteps {steps : List Step} {r : Routine} : ofSteps steps = .ok r → Fresh r

theorem Sound.ofFresh {r : Routine} (h : r.Fresh) : r.Sound := by
  cases h with
  | starting pose supply =>
    exact Journal.Throughout.ofList ⟨⟨_, [], rfl⟩, List.pairwise_singleton _ _⟩
  | @ofSteps steps r h =>
    obtain ⟨hs, h⟩ := Result.check_eq_ok_iff.1 h
    obtain ⟨hi, h⟩ := Result.check_eq_ok_iff.1 h
    rw [Result.pure_eq_ok_iff] at h
    rw [← h]
    exact Journal.Throughout.ofList (valid_of_checks hs hi)

theorem Sound.orSame {α : Type} {r : Routine} {x : Except RoutineError (α × Routine)} (hr : r.Sound)
    (h : ∀ a t, x = .ok (a, t) → t.Sound) : (r.orSame x).Sound := by
  cases x with
  | error e => exact hr
  | ok p => exact h p.1 p.2 rfl

theorem Sound.respond {r : Routine} (hr : r.Sound) (q : Request) : (r.respond q).Sound := by
  cases q with
  | replace e origin => exact hr.orSame fun _ _ h => hr.edit h
  | insert index steps origin => exact hr.orSame fun _ _ h => hr.edit h
  | remove index count origin => exact hr.orSame fun _ _ h => hr.edit h
  | append steps origin => exact hr.orSame fun _ _ h => hr.edit h
  | undo =>
    obtain ⟨x, t, hu, ht⟩ := hr.retrace .back
    rwa [Routine.respond, undo, hu]
  | redo =>
    obtain ⟨x, t, hu, ht⟩ := hr.retrace .forth
    rwa [Routine.respond, redo, hu]
  | setStartPose pose =>
    refine hr.orSame fun _ t h => ?_
    rwa [Sound, history_setStartPose h]
  | drift fromIndex d => rwa [Routine.respond, Sound, history_drift]
  | mapSites f => rwa [Routine.respond, Sound, history_mapSites]
  | setSite id site =>
    rw [Routine.respond]
    cases h : r.setSite? id site with
    | none => exact hr
    | some t => rwa [Option.getD_some, Sound, history_setSite? h]

theorem Sound.respondAll {r : Routine} (hr : r.Sound) (qs : List Request) :
    (qs.foldl Routine.respond r).Sound := by
  induction qs generalizing r with
  | nil => exact hr
  | cons q qs ih => exact ih (hr.respond q)

/-- Whatever is asked of a routine, and in whatever order: it starts with a pose, no two steps have
one identity, and undoing and redoing cannot fail. -/
theorem invariant_of_requests {r : Routine} (h : r.Fresh) (qs : List Request) :
    let t := qs.foldl respond r
    (∃ s rest, t.steps = s :: rest ∧ s.kind = .setPose) ∧ (t.steps.map (·.id)).Nodup ∧
      (∃ x, t.undo = .ok x) ∧ ∃ x, t.redo = .ok x := by
  intro t
  have ht : t.Sound := (Sound.ofFresh h).respondAll qs
  obtain ⟨⟨id, rest, ho⟩, hd⟩ := ht.now
  obtain ⟨x, u, hu, -⟩ := ht.retrace .back
  obtain ⟨y, v, hv, -⟩ := ht.retrace .forth
  refine ⟨?_, ?_, ⟨_, hu⟩, ⟨_, hv⟩⟩
  · obtain ⟨s, ss, hs, hk, -⟩ := List.map_eq_cons_iff.1 ho
    exact ⟨s, ss, hs, (Prod.ext_iff.1 hk).2⟩
  · rwa [items_history, outline, Step.ids_outline] at hd

/-- A request that is refused, one that is taken, a write in place, and both ways through the
history. -/
theorem invariant_of_requests_mixed :
    let zero : Pose := ⟨.zero, .zero, .zero⟩
    let r := ((starting zero).run ⟨0⟩).1
    let qs : List Request := [.remove 0 1 .view, .append [⟨⟨7⟩, .wait 5, none⟩] .view, .undo,
      .setStartPose ⟨.zero, .zero, .ofInt 90⟩, .redo]
    r.Fresh ∧ ((qs.foldl respond r).steps.map (·.id)) = [⟨0⟩, ⟨7⟩] ∧
      (∃ s rest, (qs.foldl respond r).steps = s :: rest ∧ s.kind = .setPose) ∧
      ((qs.foldl respond r).steps.map (·.id)).Nodup ∧
      (∃ x, (qs.foldl respond r).undo = .ok x) ∧ ∃ x, (qs.foldl respond r).redo = .ok x := by
  intro zero r qs
  have hr : r.Fresh := .starting zero ⟨0⟩
  exact ⟨hr, by decide, invariant_of_requests hr qs⟩

end Routine

end RoutineSync
