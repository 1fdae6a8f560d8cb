import RoutineSync.Proofs.Routine.Invariant
/-!
What the operations of a routine make of its list of steps.
-/
set_option autoImplicit false

namespace RoutineSync

namespace Routine

theorem ids_nodup {r : Routine} (h : r.Sound) : (r.steps.map (·.id)).Nodup := by
  have := h.now.distinct
  rwa [items_history, outline, Step.ids_outline] at this

theorem steps_ne_nil {r : Routine} (h : r.Sound) : r.steps ≠ [] := by
  obtain ⟨⟨id, rest, ho⟩, -⟩ := h.now
  rintro hnil
  have hitems : r.steps.map Step.outline = (id, .setPose) :: rest := ho
  rw [hnil] at hitems
  exact absurd hitems nofun

theorem steps_mapSites (r : Routine) (f : CallSite → CallSite) :
    (r.mapSites 0 f).steps = r.steps.map fun s => { s with site := s.site.map f } := by
  show r.journal.items.mapIdx _ = _
  rw [steps, List.mapIdx_eq_zipIdx_map]
  conv => rhs; rw [← List.zipIdx_map_fst 0 r.journal.items, List.map_map]
  rfl

theorem withSteps_map_site (r : Routine) (f : CallSite → CallSite) :
    r.withSteps (r.steps.map fun s => { s with site := s.site.map f }) = r.mapSites 0 f := by
  rw [← steps_mapSites]
  rfl

theorem steps_setSite? {r : Routine} (hn : (r.steps.map (·.id)).Nodup) (id : ActionId)
    (site : Option CallSite) :
    ((r.setSite? id site).getD r).steps
      = r.steps.map fun s => if s.id = id then { s with site } else s := by
  unfold setSite? indexOf?
  cases hi : r.steps.findIdx? fun s => s.id == id with
  | none =>
    rw [List.findIdx?_eq_none_iff] at hi
    rw [Option.map_none, Option.getD_none]
    conv => lhs; rw [← List.map_id r.steps]
    refine List.map_congr_left fun s hs => ?_
    have := hi s hs
    rw [beq_eq_false_iff_ne] at this
    simp [this]
  | some index =>
    obtain ⟨hlt, hid, -⟩ := List.findIdx?_eq_some_iff_getElem.1 hi
    rw [beq_iff_eq] at hid
    show r.steps.mapIdx (fun i s => if i = index then { s with site } else s) = _
    refine List.ext_getElem (by simp) fun i h1 h2 => ?_
    simp only [List.length_mapIdx] at h1
    simp only [List.getElem_mapIdx, List.getElem_map]
    by_cases h : i = index
    · subst h
      rw [if_pos rfl, if_pos hid]
    · rw [if_neg h, if_neg]
      intro hs
      have h1' : i < (r.steps.map (·.id)).length := by rwa [List.length_map]
      have hlt' : index < (r.steps.map (·.id)).length := by rwa [List.length_map]
      have heq : (r.steps.map (·.id))[i] = (r.steps.map (·.id))[index] := by simp [hs, hid]
      exact h ((List.getElem_inj hn).1 heq)

theorem steps_foldl_setSite? {r : Routine} {sites : List (ActionId × CallSite)}
    (hn : (r.steps.map (·.id)).Nodup) (hk : (sites.map (·.1)).Nodup) :
    (sites.foldl (fun t (id, site) => (t.setSite? id (some site)).getD t) r).steps
      = r.steps.map fun s =>
        { s with site := ((sites.find? fun e => e.1 == s.id).map (·.2)).or s.site } := by
  induction sites generalizing r with
  | nil => simp
  | cons e sites ih =>
    obtain ⟨id, site⟩ := e
    rw [List.map_cons, List.nodup_cons] at hk
    have hstep := steps_setSite? hn id (some site)
    have hids : (((r.setSite? id (some site)).getD r).steps.map (·.id)) = r.steps.map (·.id) := by
      rw [hstep, List.map_map]
      refine List.map_congr_left fun s _ => ?_
      simp only [Function.comp]
      split <;> rfl
    rw [List.foldl_cons, ih (by rwa [hids]) hk.2, hstep, List.map_map]
    refine List.map_congr_left fun s _ => ?_
    simp only [Function.comp, List.find?_cons]
    by_cases h : s.id = id
    · have hnone : (sites.find? fun e => e.1 == id) = none := by
        rw [List.find?_eq_none]
        intro e he heq
        rw [beq_iff_eq] at heq
        exact hk.1 (List.mem_map.2 ⟨e, he, heq⟩)
      simp [h, hnone]
    · have hne : (id == s.id) = false := beq_eq_false_iff_ne.2 fun h' => h h'.symm
      simp [h, hne]

theorem steps_edit {r t : Routine} {e : RoutineEdit} {origin : Origin} {x : Option RoutineEvent}
    (h : r.edit e origin = .ok (x, t)) :
    t.steps = Splice.run ⟨e.index, e.count, e.steps⟩ r.steps := by
  obtain ⟨-, ⟨hidle, -, rfl⟩ | ⟨-, c, journal, event', hx, ha, -⟩⟩ := edit_eq_ok h
  · simp only [RoutineEdit.isIdle, Bool.and_eq_true, beq_iff_eq, List.isEmpty_iff] at hidle
    simp [Splice.run, hidle]
  · have ht : t.journal = journal := by
      rw [← show _ = t from congrArg Prod.snd ha, journal_announce]
    have hitems := items_of_execute hx
    rw [forward_commandOf] at hitems
    rw [steps, ht, hitems]
    rfl

theorem retrace_eq_ok {r t : Routine} {d : Direction} {x : Option RoutineEvent}
    (h : r.retrace d = .ok (x, t)) :
    (x = none ∧ t = r) ∨ ∃ splice journal, r.journal.walk d = .ok (some splice, journal) ∧
      x = some (r.announceSplice journal splice).1 ∧ t = (r.announceSplice journal splice).2 := by
  rw [retrace, Operations.retrace] at h
  cases hpeek : r.peek d with
  | none =>
    rw [hpeek] at h
    obtain ⟨rfl, rfl⟩ := Prod.mk.inj (Except.ok.inj h)
    exact .inl ⟨rfl, rfl⟩
  | some e =>
    rw [hpeek] at h
    dsimp only at h
    rw [Result.run_bind_lift] at h
    obtain ⟨⟨_ | splice, journal⟩, hwalk, h⟩ := Result.run_bind_eq_ok_iff.1 h
    · obtain ⟨rfl, rfl⟩ := Prod.mk.inj (Except.ok.inj h)
      exact .inl ⟨rfl, rfl⟩
    · have hwalk : r.journal.walk d = .ok (some splice, journal) :=
        Result.mapError_eq_ok_iff.1 hwalk
      rw [peek, Journal.peek_of_walk hwalk] at hpeek
      obtain rfl := Option.some.inj hpeek
      obtain ⟨rfl, rfl⟩ := Prod.mk.inj (Except.ok.inj h)
      exact .inr ⟨splice, journal, hwalk, rfl, rfl⟩

theorem retrace_eq_announceSplice {r t : Routine} {d : Direction} {e : RoutineEdit}
    {event : RoutineEvent} (hp : r.peek d = some e) (h : r.retrace d = .ok (some event, t)) :
    ∃ (splice : Splice Step) (journal : Journal Step), e = .ofSplice splice ∧
      splice.Fits r.steps ∧ journal.items = splice.run r.steps ∧
      r.announceSplice journal splice = (event, t) := by
  obtain ⟨hnone, -⟩ | ⟨splice, journal, hj, hevent, ht⟩ := retrace_eq_ok h
  · exact absurd hnone nofun
  · obtain ⟨hfits, hrun⟩ := Journal.eq_run_of_walk hj
    rw [peek, Journal.peek_of_walk hj] at hp
    exact ⟨splice, journal, (Option.some.inj hp).symm, hfits, hrun,
      Prod.ext (Option.some.inj hevent).symm ht.symm⟩

theorem steps_setStartPose {r t : Routine} {pose previous : Pose}
    (h : r.setStartPose pose = .ok (previous, t)) :
    ∃ (before : Step) (rest : List Step) (action : Action),
      r.steps = before :: rest ∧ t.steps = { before with action } :: rest := by
  obtain ⟨first, rest, radians, hsteps, -, rfl⟩ := setStartPose_eq_ok_iff.1 h
  refine ⟨first, rest, .setPose pose radians, hsteps, ?_⟩
  show r.journal.items.set 0 _ = _
  rw [show r.journal.items = first :: rest from hsteps]
  rfl

/-- An edit that passes the checks is made. -/
theorem edit_of_validate {r : Routine} {e : RoutineEdit} (h : r.validate e = .ok ())
    (origin : Origin) :
    ∃ x t, r.edit e origin = .ok (x, t) ∧
      t.steps = Splice.run ⟨e.index, e.count, e.steps⟩ r.steps := by
  cases hi : e.isIdle with
  | true =>
    have he : r.edit e origin = .ok (none, r) := by
      refine Result.run_bind_eq_ok_iff.2 ⟨(), h, ?_⟩
      rw [hi]
      rfl
    exact ⟨none, r, he, steps_edit he⟩
  | false =>
    have hfits : ((commandOf e).splice .forth r.journal.items.length).Fits r.journal.items := by
      show Splice.Fits ((commandOf e).forward _) _
      rw [forward_commandOf]
      exact (validate_eq_ok_iff.1 h).1
    obtain ⟨c, j, hj⟩ : ∃ c j, r.journal.execute (commandOf e) = .ok (c, j) :=
      ⟨_, _, Journal.execute_eq_ok_iff.2 ⟨_, Command.step_of_fits hfits, rfl⟩⟩
    obtain ⟨event, t, ha⟩ : ∃ event t, { r with journal := j }.announce origin e.index
        ((r.steps.drop e.index).take e.count) e.steps = (event, t) := ⟨_, _, rfl⟩
    have he : r.edit e origin = .ok (some event, t) := by
      refine Result.run_bind_eq_ok_iff.2 ⟨(), h, ?_⟩
      rw [hi, if_neg Bool.false_ne_true, Result.run_bind_lift]
      refine Result.run_bind_eq_ok_iff.2 ⟨(c, j), Result.mapError_eq_ok_iff.2 hj, ?_⟩
      exact congrArg (fun p => Except.ok (some p.1, p.2)) ha
    exact ⟨some event, t, he, steps_edit he⟩

theorem steps_drift (r : Routine) (n : Nat) (d : Drift) :
    (r.drift n d).steps = r.steps.take n ++ (r.steps.drop n).map fun s =>
      { s with site := s.site.map d.moved } := by
  rw [drift_eq]
  rfl

theorem ids_drift (r : Routine) (n : Nat) (d : Drift) :
    (r.drift n d).steps.map (·.id) = r.steps.map (·.id) := by
  have : (r.drift n d).outline = r.outline := congrArg Journal.items (r.history_drift n d)
  rw [← Step.ids_outline, ← Step.ids_outline]
  exact congrArg (List.map (·.1)) this

/-- Whether an edit is accepted does not depend on the places. -/
theorem validate_drift {r : Routine} {e : RoutineEdit} (h : r.validate e = .ok ()) (n : Nat)
    (d : Drift) : (r.drift n d).validate e = .ok () := by
  have hids := r.ids_drift n d
  rw [validate_eq_ok_iff] at h ⊢
  have hsize : (r.drift n d).size = r.size := by
    have := congrArg List.length hids
    rwa [List.length_map, List.length_map] at this
  rw [hsize]
  simpa only [List.map_append, List.map_take, List.map_drop, hids] using h

end Routine

end RoutineSync
