import RoutineSync.Proofs.Session.Taking
import RoutineSync.Proofs.Session.Writing
/-!
Changes by the host: what a session makes of one that fits, and of the whole text when it has lost
step.
-/
set_option autoImplicit false

namespace RoutineSync

namespace Session

/-- The edit for the part of the text around a change. -/
def rescanEdit (s : Session) (l m : Nat) (fragment : Text) (bias : Nat) (supply : IdSupply) :
    RoutineEdit :=
  ⟨l, m, freshSteps (scan fragment) bias supply ((s.steps.drop l).take m)⟩

theorem run_planned (steps : List Step) (c : TextChange) (t : Text) (supply : IdSupply) :
    ∃ u bias plan, (Rescan.plan steps c t).run supply = (plan, ⟨supply.next + (scan u).length⟩) ∧
      plan.edit.steps
        = freshSteps (scan u) bias supply ((steps.drop plan.edit.index).take plan.edit.count) := by
  rw [Rescan.run_plan_eq]
  exact ⟨_, _, _, rfl, rfl⟩

theorem run_plan {s : Session} {c : TextChange} {sites : List CallSite}
    (hsites : s.steps.map (·.site) = sites.map some) (v : Rescan.Surroundings s.text c sites)
    (supply : IdSupply) :
    (Rescan.plan s.steps c s.text).run supply =
      (⟨s.rescanEdit v.left.length v.middle.length (v.lead ++ c.text ++ v.trail) v.fore.size supply,
        v.left.length + v.middle.length, ⟨c.stop, c.delta⟩,
        ⟨v.fore.size, v.fore.size + (v.lead ++ c.text ++ v.trail).size⟩⟩,
        ⟨supply.next + (scan (v.lead ++ c.text ++ v.trail)).length⟩) :=
  v.run_plan hsites supply

/-- What a change that fits leads to: the steps around it are scanned anew, or else, where the
routine could not start with a pose any more, the session is desynced. -/
theorem run_takeChange {s : Session} {c : TextChange} {sites : List CallSite} (h : s.Kept)
    (hd : s.desynced = false) (hsites : s.steps.map (·.site) = sites.map some)
    (v : Rescan.Surroundings s.text c sites) (supply : IdSupply) :
    let e := s.rescanEdit v.left.length v.middle.length (v.lead ++ c.text ++ v.trail) v.fore.size supply
    ∃ s' told, (s.takeChange c).run supply
        = (.ok (s', told), ⟨supply.next + (scan (v.lead ++ c.text ++ v.trail)).length⟩) ∧
      s'.text = c.apply s.text ∧ s'.pending = s.pending ∧
      ((s.routine.validate e = .ok () ∧ s'.desynced = false ∧ s'.routine.Sound ∧
          s'.steps = s.steps.take v.left.length ++ e.steps
            ++ (s.steps.drop (v.left.length + v.middle.length)).map fun x =>
              { x with site := x.site.map (Drift.moved ⟨c.stop, c.delta⟩) }) ∨
        (s.routine.validate e ≠ .ok () ∧ s'.desynced = true ∧ s'.routine = s.routine)) := by
  intro e
  have hlength : v.left.length + v.middle.length ≤ s.routine.size := v.length_le hsites
  obtain ⟨s', told, hplanned, htakes⟩ := s.exists_takesPlanned c
    ((Rescan.plan s.steps c s.text).run supply).1
  rw [run_takeChange_planned hd, run_plan hsites v supply] at *
  refine ⟨s', told, congrArg (·, _) hplanned, ?_⟩
  have hsound : (s.routine.drift (v.left.length + v.middle.length) ⟨c.stop, c.delta⟩).Sound := by
    rw [Routine.Sound, Routine.history_drift]
    exact h.sound
  have hlist : ∀ {x : Option RoutineEvent} {routine : Routine},
      (s.routine.drift (v.left.length + v.middle.length) ⟨c.stop, c.delta⟩).edit e .text
        = .ok (x, routine) →
      routine.steps = s.steps.take v.left.length ++ e.steps
        ++ (s.steps.drop (v.left.length + v.middle.length)).map fun x =>
          { x with site := x.site.map (Drift.moved ⟨c.stop, c.delta⟩) } := by
    intro x routine hedit
    have htake : (s.routine.steps.take (v.left.length + v.middle.length)).length
        = v.left.length + v.middle.length := by
      rw [List.length_take]
      exact Nat.min_eq_left hlength
    have hindex : e.index = v.left.length := rfl
    have hcount : e.count = v.middle.length := rfl
    rw [Routine.steps_edit hedit, Routine.steps_drift, Splice.run]
    simp only [hindex, hcount]
    rw [List.drop_left' htake, List.take_append_of_le_length (by rw [htake]; omega),
      List.take_take, Nat.min_eq_left (Nat.le_add_right _ _)]
    rfl
  cases htakes with
  | lost hvalid =>
    refine ⟨rfl, rfl, .inr ⟨fun hv => ?_, rfl, rfl⟩⟩
    cases hvalid.symm.trans hv
  | idle hvalid hedit => exact ⟨rfl, rfl, .inl ⟨hvalid, hd, hsound, hlist hedit⟩⟩
  | @edited event routine _ hvalid hedit ht =>
    obtain ⟨selection, hselection⟩ := followSelection_eq
      ({ s with text := c.apply s.text, routine } : Session) event
    rw [← ht, hselection]
    exact ⟨rfl, rfl, .inl ⟨hvalid, hd, hsound.edit hedit, hlist hedit⟩⟩

/-- After a change the steps stand where the text says. -/
theorem inStep_of_newSites {s s' : Session} {c : TextChange} {sites : List CallSite}
    {fresh : List Step} (hsites : s.steps.map (·.site) = sites.map some)
    (ha : Anchored s.text sites) (v : Rescan.Surroundings s.text c sites)
    (hs : (c.apply s.text).size ≤ maxPlace) (htext : s'.text = c.apply s.text)
    (hfresh : fresh.map (·.site)
      = ((scan (v.lead ++ c.text ++ v.trail)).map fun a => (a.shift v.fore.size).site).map some)
    (hsteps : s'.steps = s.steps.take v.left.length ++ fresh
      ++ (s.steps.drop (v.left.length + v.middle.length)).map fun x =>
        { x with site := x.site.map (Drift.moved ⟨c.stop, c.delta⟩) }) : s'.InStep := by
  refine ⟨v.newSites, ?_, htext ▸ v.anchored_newSites ha hs⟩
  have hall := hsites.trans (congrArg (List.map some) v.sites_eq)
  have hleft : (s.steps.take v.left.length).map (·.site) = v.left.map some := by
    rw [List.map_take, hall, List.append_assoc, List.map_append,
      List.take_left' (List.length_map _)]
  have hright : (s.steps.drop (v.left.length + v.middle.length)).map (·.site)
      = v.right.map some := by
    rw [List.map_drop, hall, List.map_append, List.drop_left' (by simp)]
  have hmoved : ((s.steps.drop (v.left.length + v.middle.length)).map fun x =>
      ({ x with site := x.site.map (Drift.moved ⟨c.stop, c.delta⟩) } : Step)).map (·.site)
      = (v.right.map (Drift.moved ⟨c.stop, c.delta⟩)).map some := by
    have := congrArg (List.map (Option.map (Drift.moved ⟨c.stop, c.delta⟩))) hright
    rw [List.map_map, List.map_map] at this
    rw [List.map_map, List.map_map]
    exact this
  rw [hsteps, List.map_append, List.map_append, hleft, hfresh, hmoved, ← List.map_append,
    ← List.map_append]
  rfl

theorem Kept.takeChange {s s' : Session} {c : TextChange} {told : List ViewMessage}
    {supply supply' : IdSupply} (h : s.Kept) (hf : c.fits s.text = true)
    (hs : (c.apply s.text).size ≤ maxPlace)
    (ht : (s.takeChange c).run supply = (.ok (s', told), supply')) :
    s'.Kept ∧ s'.text = c.apply s.text := by
  cases hd : s.desynced with
  | true =>
    rw [run_takeChange_desynced hd] at ht
    cases ht
    exact ⟨⟨h.sound, fun hd' => by simp [hd] at hd'⟩, rfl⟩
  | false =>
    obtain ⟨sites, hsites, ha⟩ := h.inStep hd
    obtain ⟨v⟩ := Rescan.nonempty_surroundings ha hf
    obtain ⟨w, told', hrun, htext, -, hcases⟩ := run_takeChange h hd hsites v supply
    rw [ht] at hrun
    obtain ⟨rfl, -⟩ := Prod.mk.inj (Except.ok.inj (congrArg Prod.fst hrun))
    refine ⟨?_, htext⟩
    rcases hcases with ⟨-, -, hsound, hsteps⟩ | ⟨-, hd', hroutine⟩
    · refine ⟨hsound, fun _ => inStep_of_newSites hsites ha v hs htext ?_ hsteps⟩
      exact site_freshSteps _ _ _ _
    · exact ⟨hroutine ▸ h.sound, fun h => by simp [hd'] at h⟩

theorem run_resync {s : Session} (h : s.routine.Sound) (supply : IdSupply) :
    ∃ x, s.resync.run supply = (x, ⟨supply.next + (scan s.text).length⟩) ∧
      ((x = none ∧ (((scan s.text).head?.any fun c => c.action.kind.establishesPose) = false ∨
          s.routine.validate (s.resyncEdit supply) ≠ .ok ())) ∨
        ∃ s', x = some s' ∧
          ((scan s.text).head?.any fun c => c.action.kind.establishesPose) = true ∧
          s'.text = s.text ∧ s'.pending = s.pending ∧ s'.desynced = false ∧ s'.routine.Sound ∧
          s'.steps = (s.resyncEdit supply).steps) := by
  refine ⟨_, run_resync_eq s supply, ?_⟩
  cases hp : (scan s.text).head?.any fun c => c.action.kind.establishesPose with
  | false => exact .inl ⟨rfl, .inl rfl⟩
  | true =>
    rw [if_pos rfl]
    cases hv : s.routine.validate (s.resyncEdit supply) with
    | error e =>
      refine .inl ⟨?_, .inr (by simp)⟩
      cases hedit : s.routine.edit (s.resyncEdit supply) .text with
      | error _ => rfl
      | ok _ => cases hv.symm.trans (Routine.edit_eq_ok hedit).1
    | ok _ =>
      obtain ⟨x, routine, hedit, hsteps⟩ := Routine.edit_of_validate hv .text
      refine .inr ⟨s.resynced routine, by rw [hedit]; rfl, rfl, rfl, rfl, rfl, h.edit hedit, ?_⟩
      show routine.steps = _
      rw [hsteps]
      simp [Splice.run, resyncEdit, Routine.size]

theorem Kept.resync {s s' : Session} {supply supply' : IdSupply} (h : s.Kept)
    (hr : s.resync.run supply = (some s', supply')) : s'.Kept := by
  obtain ⟨x, hrun, hcases⟩ := run_resync h.sound supply
  rw [hr] at hrun
  obtain rfl := congrArg Prod.fst hrun
  rcases hcases with ⟨hnone, -⟩ | ⟨w, hw, -, htext, -, -, hsound, hsteps⟩
  · simp at hnone
  · obtain rfl := Option.some.inj hw
    refine ⟨hsound, fun _ => ⟨(scan s.text).map (·.site), ?_, ?_⟩⟩
    · rw [hsteps, resyncEdit, site_freshSteps]
      rfl
    · rw [htext]
      exact anchored_scan s.text

end Session

end RoutineSync
