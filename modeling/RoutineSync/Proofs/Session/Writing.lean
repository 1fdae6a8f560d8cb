import RoutineSync.Proofs.Routine.Events
import RoutineSync.Proofs.Session.Outcomes
import RoutineSync.Proofs.Sync.Settled
/-!
Edits by the view: once they are written, every step stands in the text again.
-/
set_option autoImplicit false

namespace RoutineSync

namespace Session

def InStep (s : Session) : Prop :=
  ∃ sites : List CallSite, s.steps.map (·.site) = sites.map some ∧ Anchored s.text sites

theorem steps_write {s : Session} {r : Rewrite} (hn : (s.steps.map (·.id)).Nodup)
    (hk : (r.sites.map (·.1)).Nodup) :
    (s.write r).steps
      = s.steps.map fun x => { x with site := (r.siteOf? x.id).or (x.site.map r.remap) } := by
  have hids : ((s.routine.mapSites 0 r.remap).steps.map (·.id)) = s.steps.map (·.id) := by
    rw [Routine.steps_mapSites, List.map_map]
    rfl
  rw [steps, routine_write_eq, Routine.steps_foldl_setSite? (hids ▸ hn) hk, Routine.steps_mapSites, List.map_map]
  rfl

/-- What does not depend on where the calls stand is the same after writing. -/
theorem routine_write {α : Type} {f : Routine → α} (hmap : ∀ r g, f (r.mapSites 0 g) = f r)
    (hset : ∀ {r t : Routine} {id : ActionId} {site : Option CallSite},
      r.setSite? id site = some t → f t = f r) (s : Session) (r : Rewrite) :
    f (s.write r).routine = f s.routine := by
  have hfold : ∀ (g : Routine → ActionId × CallSite → Routine), (∀ t e, f (g t e) = f t) →
      ∀ (sites : List (ActionId × CallSite)) (t : Routine), f (sites.foldl g t) = f t := by
    intro g hg sites
    induction sites with
    | nil => exact fun _ => rfl
    | cons e sites ih => exact fun t => (ih (g t e)).trans (hg t e)
  rw [routine_write_eq]
  refine (hfold _ (fun t e => ?_) _ _).trans (hmap _ _)
  obtain ⟨id, site⟩ := e
  show f ((t.setSite? id (some site)).getD t) = f t
  cases h : t.setSite? id (some site) with
  | none => rfl
  | some u => exact hset h

theorem history_write (s : Session) (r : Rewrite) :
    (s.write r).routine.history = s.routine.history :=
  routine_write (fun t => t.history_mapSites 0) Routine.history_setSite? s r

theorem entries_write (s : Session) (r : Rewrite) :
    (s.write r).routine.entries = s.routine.entries :=
  routine_write (fun t => t.entries_mapSites 0) Routine.entries_setSite? s r

theorem seq_write (s : Session) (r : Rewrite) : (s.write r).routine.seq = s.routine.seq :=
  routine_write (f := Routine.seq) (fun _ _ => rfl) Routine.seq_setSite? s r

theorem nodup_installed {steps steps' : List Step} {e : RoutineEdit}
    (hsteps : steps' = Splice.run ⟨e.index, e.count, e.steps⟩ steps) (hn : (steps'.map (·.id)).Nodup) :
    (e.steps.map (·.id)).Nodup := by
  rw [hsteps, Splice.run, List.map_append, List.map_append] at hn
  exact (List.nodup_append.1 (List.nodup_append.1 hn).1).2.1

/-- The steps outside an edit that is written move along, and the installed ones stand where they were
put. -/
theorem steps_write_run {s : Session} {steps : List Step} {e : RoutineEdit} {r : Rewrite}
    {pre post : List CallSite} {rep : List (Option CallSite)}
    (m : Rewrite.Synthesis s.text e.steps pre rep post r) (ha : Marked s.text (pre ++ rep.reduceOption ++ post))
    (hsteps : s.steps = Splice.run ⟨e.index, e.count, e.steps⟩ steps)
    (hn : (s.steps.map (·.id)).Nodup) (hs : (TextEdit.applyAll r.edits s.text).size ≤ maxPlace) :
    (s.write r).steps
      = (steps.take e.index).map (fun x => { x with site := x.site.map r.remap })
        ++ e.steps.map (fun x => { x with site := some (Rewrite.Synthesis.settled r x.id) })
        ++ (steps.drop (e.index + e.count)).map fun x => { x with site := x.site.map r.remap } := by
  have hn' := hn
  rw [hsteps, Splice.run, List.map_append, List.map_append, List.nodup_append,
    List.nodup_append] at hn'
  obtain ⟨⟨-, hedit, hpre⟩, -, hpost⟩ := hn'
  have hkeys := m.keys_perm
  have hnone : ∀ {x : Step}, (∀ y ∈ e.steps, y.id ≠ x.id) → r.siteOf? x.id = none := by
    refine fun hne => Rewrite.siteOf?_eq_none fun hid => ?_
    obtain ⟨y, hy, hyx⟩ := List.mem_map.1 (hkeys.mem_iff.1 hid)
    exact hne y hy hyx
  rw [steps_write hn (hkeys.nodup_iff.2 hedit), hsteps, Splice.run, List.map_append, List.map_append]
  refine congr (congrArg _ (congr (congrArg _ ?_) ?_)) ?_
  · refine List.map_congr_left fun x hx => ?_
    rw [hnone fun y hy h => hpre x.id (List.mem_map_of_mem hx) y.id (List.mem_map_of_mem hy) h.symm,
      Option.none_or]
  · refine List.map_congr_left fun x hx => ?_
    rw [(m.settled_liesIn hedit ha hs hx).1, Option.some_or]
  · refine List.map_congr_left fun x hx => ?_
    rw [hnone fun y hy h => hpost y.id (List.mem_append_right _ (List.mem_map_of_mem hy)) x.id
      (List.mem_map_of_mem hx) h, Option.none_or]

theorem sites_write_run {s : Session} {steps : List Step} {sites : List CallSite} {e : RoutineEdit}
    {r : Rewrite} (hsites : steps.map (·.site) = sites.map some)
    (m : Rewrite.Synthesis s.text e.steps (sites.take e.index)
      (((sites.drop e.index).take e.count).map some) (sites.drop (e.index + e.count)) r)
    (ha : Marked s.text sites) (hsteps : s.steps = Splice.run ⟨e.index, e.count, e.steps⟩ steps)
    (hn : (s.steps.map (·.id)).Nodup) (hs : (TextEdit.applyAll r.edits s.text).size ≤ maxPlace) :
    (s.write r).steps.map (·.site) = ((sites.take e.index).map r.remap
      ++ e.steps.map (fun x => Rewrite.Synthesis.settled r x.id)
      ++ (sites.drop (e.index + e.count)).map r.remap).map some := by
  have hmoved : ∀ (xs : List Step) (as : List CallSite), xs.map (·.site) = as.map some →
      (xs.map fun x => ({ x with site := x.site.map r.remap } : Step)).map (·.site)
        = (as.map r.remap).map some := by
    intro xs as h
    have := congrArg (List.map fun a : Option CallSite => a.map r.remap) h
    rw [List.map_map, List.map_map] at this
    rw [List.map_map, List.map_map]
    exact this
  have hplaced : (e.steps.map fun x =>
      ({ x with site := some (Rewrite.Synthesis.settled r x.id) } : Step)).map (·.site)
        = (e.steps.map fun x => Rewrite.Synthesis.settled r x.id).map some := by
    rw [List.map_map, List.map_map]
    rfl
  rw [← parts_eq sites e.index e.count] at ha
  rw [steps_write_run m ha hsteps hn hs, List.map_append, List.map_append, List.map_append,
    List.map_append, hmoved _ (sites.take e.index) (by simp only [List.map_take, hsites]),
    hmoved _ (sites.drop (e.index + e.count)) (by simp only [List.map_drop, hsites]), hplaced]

theorem inStep_write {s : Session} {steps : List Step} {sites : List CallSite} {e : RoutineEdit}
    {r : Rewrite} (hsites : steps.map (·.site) = sites.map some) (ha : Anchored s.text sites)
    (hr : Rewrite.synthesize steps e (.byCount s.text) = .ok r)
    (hsteps : s.steps = Splice.run ⟨e.index, e.count, e.steps⟩ steps)
    (hn : (s.steps.map (·.id)).Nodup)
    (hs : (TextEdit.applyAll r.edits s.text).size ≤ maxPlace) : (s.write r).InStep := by
  obtain ⟨-, ⟨m⟩⟩ := Rewrite.nonempty_synthesis hsites hr
  refine ⟨_, sites_write_run hsites m ha.marked hsteps hn hs, ?_⟩
  rw [← parts_eq sites e.index e.count] at ha
  exact m.anchored_settled (nodup_installed hsteps hn) ha hs

/-- What every session keeps. -/
structure Kept (s : Session) : Prop where
  sound : s.routine.Sound
  inStep : s.desynced = false → s.InStep

/-- An edit of the routine is made and written. -/
inductive Writes (s : Session) : Session → HostEdit → ViewMessage → Prop where
  | intro {e : RoutineEdit} {r : Rewrite} {event : RoutineEvent} {routine : Routine} {t : Session}
      {host : HostEdit} {message : ViewMessage} : s.desynced = false →
      Rewrite.synthesize s.steps e (.byCount s.text) = .ok r → event.Tells e s.routine routine →
      (s.routine.Sound → routine.Sound) →
      ({ s with routine } : Session).commit event r = (t, host, message) →
      Writes s t host message

theorem Writes.kept {s t : Session} {host : HostEdit} {message : ViewMessage}
    (h : s.Writes t host message) (hk : s.Kept) (hs : t.text.size ≤ maxPlace) : t.Kept := by
  obtain ⟨hd, hr, htells, hsound, hcommit⟩ := h
  rename_i e r event routine
  obtain ⟨sites, hsites, ha⟩ := hk.inStep hd
  rw [commit_eq] at hcommit
  cases hcommit
  refine ⟨?_, fun _ => ?_⟩
  · show Journal.Throughout _ (({ s with routine } : Session).write r).routine.history
    rw [history_write]
    exact hsound hk.sound
  · exact inStep_write (s := { s with routine }) hsites ha hr htells.steps_eq
      (Routine.ids_nodup (hsound hk.sound)) hs

def Gives (s : Session) (x : Outcome) : Prop :=
  ∀ t out, x = .ok (t, out) →
    (t = s ∧ out = none) ∨ ∃ host message, out = some (host, message) ∧ s.Writes t host message

theorem Gives.kept {s t : Session} {x : Outcome} {out : Option (HostEdit × ViewMessage)}
    (h : s.Gives x) (hk : s.Kept) (hx : x = .ok (t, out)) (hs : t.text.size ≤ maxPlace) :
    t.Kept := by
  rcases h t out hx with ⟨rfl, -⟩ | ⟨host, message, -, hwrites⟩
  · exact hk
  · exact hwrites.kept hk hs

theorem gives_perform {s : Session} {e : RoutineEdit}
    {change : Routine → Except RoutineError (Option RoutineEvent × Routine)}
    (hd : s.desynced = false)
    (hchange : ∀ event routine, change s.routine = .ok (some event, routine) →
      event.Tells e s.routine routine ∧ (s.routine.Sound → routine.Sound)) :
    s.Gives (s.perform e change) := by
  intro t out h
  cases performs_of_eq h with
  | idle _ _ => exact .inl ⟨rfl, rfl⟩
  | written hr hc hcommit =>
    obtain ⟨htells, hsound⟩ := hchange _ _ hc
    exact .inr ⟨_, _, rfl, .intro hd hr htells hsound hcommit⟩

theorem gives_edit (s : Session) (e : RoutineEdit) : s.Gives (s.edit e) := by
  intro t out h
  cases edits_of_eq h with
  | idle _ _ _ => exact .inl ⟨rfl, rfl⟩
  | performed hd _ _ hperform =>
    exact gives_perform hd
      (fun event routine hc => ⟨Routine.tells_edit hc, fun hs => hs.edit hc⟩) t out hperform

theorem gives_revisit (d : Direction) (s : Session) : s.Gives (s.revisit d) := by
  intro t out h
  cases revisits_of_eq h with
  | idle _ _ => exact .inl ⟨rfl, rfl⟩
  | performed hd he hperform =>
    refine gives_perform hd (fun event routine hc => ⟨Routine.tells_retrace he hc, fun hs => ?_⟩)
      t out hperform
    obtain ⟨y, t, hy, ht⟩ := hs.retrace d
    cases hc.symm.trans hy
    exact ht

end Session

end RoutineSync
