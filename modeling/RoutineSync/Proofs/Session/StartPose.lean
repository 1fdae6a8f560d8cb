import RoutineSync.Proofs.Session.Writing
/-!
Moving the starting pose patches the first call and moves the others behind it.
-/
set_option autoImplicit false

namespace RoutineSync

namespace CallSite.PatchesTo
variable {s site : CallSite} {edits : List TextEdit} {t : Text} {rest : List CallSite}

/-- Patches of the first call alone carry all calls along. -/
theorem carries (h : s.PatchesTo edits site) (ha : Anchored t (s :: rest)) :
    Rewrite.Carries t edits (⟨s, edits⟩ :: rest.map fun a => ⟨a, []⟩) := by
  have hst := ha.stands s List.mem_cons_self
  obtain ⟨u, v, ht, hu⟩ := hst.stands
  have hbehind := (List.pairwise_cons.1 ha.ordered).1
  have hstop := hst.stop_eq
  constructor
  · refine TextEdit.fit_of_pairwise (fun e he => ?_) h.fit.pairwise
    obtain ⟨a, b, c, hs, hr⟩ := h.fit.exists_cut e he
    refine ⟨u ++ a, b, c ++ v, by rw [ht, hs]; simp, ?_⟩
    rw [hr, Text.size_append, hu, Nat.zero_add]
  · intro x hx
    rcases List.mem_cons.1 hx with rfl | hx
    · exact hst.spansIn
    · obtain ⟨a, hm, rfl⟩ := List.mem_map.1 hx
      exact (ha.stands a (List.mem_cons_of_mem _ hm)).spansIn
  · intro x hx e he
    have hin := h.inside e he
    rcases List.mem_cons.1 hx with rfl | hx
    · simp only [TextEdit.inside, Bool.and_eq_true, decide_eq_true_eq]
      omega
    · obtain ⟨a, hm, rfl⟩ := List.mem_map.1 hx
      have := hbehind a hm
      exact .inl (by show e.range.stop ≤ a.start; omega)
  · intro x hx
    rcases List.mem_cons.1 hx with rfl | hx
    · rw [List.filter_eq_self]
      intro e he
      have hin := h.inside e he
      simp only [TextEdit.inside, Bool.and_eq_true, decide_eq_true_eq]
      omega
    · obtain ⟨a, hm, rfl⟩ := List.mem_map.1 hx
      rw [List.filter_eq_nil_iff]
      intro e he
      have hin := h.inside e he
      have := hbehind a hm
      simp only [TextEdit.inside, Bool.and_eq_true, decide_eq_true_eq, not_and]
      omega

/-- Nothing before the first call changes, so it stays where it is. -/
theorem landStart_eq (h : s.PatchesTo edits site) (ha : Anchored t (s :: rest))
    (hs : (TextEdit.applyAll edits t).size ≤ maxPlace) :
    TextEdit.landStart edits s.start = s.start := by
  have hc := h.carries ha
  have hm := List.mem_cons_self (a := (⟨s, edits⟩ : Rewrite.Staying))
    (l := rest.map fun a => ⟨a, []⟩)
  obtain ⟨u, v, ht, hu⟩ := (ha.stands s List.mem_cons_self).stands
  rw [List.append_assoc] at ht
  have hnone : edits.filter (TextEdit.countsAtStart s.start) = [] := by
    rw [List.filter_eq_nil_iff]
    intro e he
    have := h.inside e he
    rw [TextEdit.countsAtStart_iff]
    omega
  have hfit := hc.fit
  rw [ht] at hfit hs
  have := (TextEdit.cuts_atStart hc.fit (hc.clear_start hm)).land_eq hfit hu hs
  rw [hnone, TextEdit.applyFrom_nil, hu] at this
  exact this

end CallSite.PatchesTo

namespace Session

theorem steps_write_startPose {s : Session} {before : Step} {rest : List Step} {site : CallSite}
    {edits : List TextEdit} (hn : (s.steps.map (·.id)).Nodup) (hsteps : s.steps = before :: rest) :
    let r : Rewrite := ⟨edits, [(before.id, site)]⟩
    (s.write r).steps = { before with site := some site }
      :: rest.map fun x => { x with site := x.site.map r.remap } := by
  intro r
  have hne : ∀ x ∈ rest, before.id ≠ x.id := fun x hx heq => by
    rw [hsteps, List.map_cons, List.nodup_cons] at hn
    exact hn.1 (heq ▸ List.mem_map_of_mem hx)
  have hfirst : r.siteOf? before.id = some site := by simp [r, Rewrite.siteOf?]
  rw [steps_write hn (by simp [r]), hsteps, List.map_cons, hfirst, Option.some_or]
  refine congrArg _ (List.map_congr_left fun x hx => ?_)
  rw [show r.siteOf? x.id = none by simp [r, Rewrite.siteOf?, hne x hx], Option.none_or]

theorem sites_write_startPose {s : Session} {before : Step} {rest : List Step} {as : List CallSite}
    {site : CallSite} {edits : List TextEdit} (hn : (s.steps.map (·.id)).Nodup)
    (hsteps : s.steps = before :: rest) (hsites : rest.map (·.site) = as.map some) :
    let r : Rewrite := ⟨edits, [(before.id, site)]⟩
    (s.write r).steps.map (·.site) = (site :: as.map r.remap).map some := by
  intro r
  have hmoved := congrArg (List.map fun a : Option CallSite => a.map r.remap) hsites
  rw [List.map_map, List.map_map] at hmoved
  rw [steps_write_startPose hn hsteps, List.map_cons, List.map_cons, List.map_map, List.map_map]
  exact congrArg _ hmoved

theorem Kept.write_startPose {s : Session} {before : Step} {rest : List Step} {a site : CallSite}
    {edits : List TextEdit} (h : s.Kept) (hsync : s.InStep) (hsteps : s.steps = before :: rest)
    (hsite : before.site = some a) (hp : a.PatchesTo edits site)
    (hs : (TextEdit.applyAll edits s.text).size ≤ maxPlace) :
    (s.write ⟨edits, [(before.id, site)]⟩).InStep := by
  obtain ⟨sites, hsites, ha⟩ := hsync
  rw [hsteps, List.map_cons, hsite] at hsites
  cases sites with
  | nil => simp at hsites
  | cons a' as =>
    simp only [List.map_cons, List.cons.injEq, Option.some.injEq] at hsites
    obtain ⟨rfl, hsites⟩ := hsites
    let r : Rewrite := ⟨edits, [(before.id, site)]⟩
    have hc := hp.carries ha
    have hmem : ∀ b ∈ as, (⟨b, []⟩ : Rewrite.Staying) ∈
        (⟨a, edits⟩ :: as.map fun a => ⟨a, []⟩ : List Rewrite.Staying) :=
      fun b hb => List.mem_cons_of_mem _ (List.mem_map.2 ⟨b, hb, rfl⟩)
    have hmem' : (⟨a, edits⟩ : Rewrite.Staying) ∈
        (⟨a, edits⟩ :: as.map fun a => ⟨a, []⟩ : List Rewrite.Staying) := List.mem_cons_self
    have hlands := hc.lands hs hmem' hp
    rw [hp.landStart_eq ha hs] at hlands
    have hstop : site.stop = TextEdit.landEnd edits a.stop := by
      rw [hp.stop_eq, hp.start_eq]
      exact hlands.2.symm
    refine ⟨site :: as.map r.remap, sites_write_startPose (Routine.ids_nodup h.sound) hsteps hsites, ?_, ?_⟩
    · intro b hb
      rcases List.mem_cons.1 hb with rfl | hb
      · refine ⟨?_, hp.stop_eq, hp.proper (ha.stands a List.mem_cons_self).proper⟩
        rw [hp.start_eq]
        exact hlands.1.stands
      · obtain ⟨c, hcm, rfl⟩ := List.mem_map.1 hb
        have hst := ha.stands c (List.mem_cons_of_mem _ hcm)
        obtain ⟨hlies, -⟩ := hc.lands hs (hmem c hcm) (Rewrite.patchesTo_nil hst.spansIn.liesIn)
        exact ⟨hlies.stands, hlies.stop_eq, hst.proper⟩
    · obtain ⟨hfirst, hrest⟩ := List.pairwise_cons.1 ha.ordered
      refine .cons (fun b hb => ?_) ?_
      · obtain ⟨c, hcm, rfl⟩ := List.mem_map.1 hb
        rw [hstop]
        exact hc.landEnd_le_landStart hs hmem' (hmem c hcm) (hfirst c hcm)
      · rw [List.pairwise_map]
        exact hrest.imp_of_mem fun {x y} hx hy hxy =>
          hc.landEnd_le_landStart hs (hmem x hx) (hmem y hy) hxy

inductive Poses (s : Session) : Session → Except SessionError (Option HostEdit) → Prop where
  | refused {e : SessionError} : Poses s s (.error e)
  | unwritten {pose previous : Pose} {routine : Routine}
      {x : Except SessionError (Option HostEdit)} :
      s.routine.setStartPose pose = .ok (previous, routine) → (∀ host, x ≠ .ok (some host)) →
      (x = .ok none → ∀ first rest action a, s.steps = first :: rest →
        routine.steps = { first with action } :: rest → first.site = some a →
        ∃ site, a.patchTo first.action action = .ok ([], site)) →
      Poses s { s with routine } x
  | written {pose previous : Pose} {routine : Routine} {first : Step} {rest : List Step}
      {action : Action} {a site : CallSite} {edits : List TextEdit} {t : Session} {host : HostEdit} :
      s.desynced = false → s.routine.setStartPose pose = .ok (previous, routine) →
      s.steps = first :: rest → routine.steps = { first with action } :: rest →
      first.site = some a → a.patchTo first.action action = .ok (edits, site) →
      ({ s with routine } : Session).issue ⟨edits, [(first.id, site)]⟩ = (t, host) →
      Poses s t (.ok (some host))

theorem poses_of_setStartPose {s t : Session} {pose : Pose}
    {x : Except SessionError (Option HostEdit)} (h : s.setStartPose pose = (t, x)) :
    s.Poses t x := by
  cases movesPose_of_eq h with
  | lost _ => exact .refused
  | empty _ => exact .refused
  | noLiteral _ => exact .refused
  | refused _ => exact .refused
  | unsited hpose hsteps hsite =>
    refine .unwritten hpose nofun fun _ first rest action a h _ ha => ?_
    obtain ⟨rfl, -⟩ := List.cons.inj (h.symm.trans hsteps)
    exact absurd (hsite.symm.trans ha) nofun
  | unpatched _ hpose _ _ _ _ => exact .unwritten hpose nofun nofun
  | unchanged hpose hsteps hmoved hsite hpatch =>
    refine .unwritten hpose nofun fun _ first rest action a h h' ha => ?_
    obtain ⟨rfl, rfl⟩ := List.cons.inj (h.symm.trans hsteps)
    obtain rfl := congrArg Step.action (List.cons.inj (h'.symm.trans hmoved)).1
    obtain rfl := Option.some.inj (ha.symm.trans hsite)
    exact ⟨_, hpatch⟩
  | patched hd hpose hsteps hmoved hsite hpatch hissue =>
    exact .written hd hpose hsteps hmoved hsite hpatch hissue

theorem Kept.poses {s : Session} {pose previous : Pose} {routine : Routine} (h : s.Kept)
    (hpose : s.routine.setStartPose pose = .ok (previous, routine)) :
    ({ s with routine } : Session).Kept := by
  refine ⟨?_, fun hd => ?_⟩
  · show Routine.Sound routine
    rw [Routine.Sound, Routine.history_setStartPose hpose]
    exact h.sound
  · obtain ⟨sites, hsites, ha⟩ := h.inStep hd
    obtain ⟨first, rest, action, hsteps, hmoved⟩ := Routine.steps_setStartPose hpose
    refine ⟨sites, ?_, ha⟩
    rw [← hsites]
    show routine.steps.map (·.site) = s.routine.steps.map (·.site)
    rw [hmoved, hsteps]
    rfl

theorem Kept.patchesTo {s : Session} {first : Step} {rest : List Step} {a site : CallSite}
    {before after : Action} {edits : List TextEdit} (h : s.Kept) (hd : s.desynced = false)
    (hsteps : s.steps = first :: rest) (hsite : first.site = some a)
    (hpatch : a.patchTo before after = .ok (edits, site)) :
    a.PatchesTo edits site ∧ ∃ as, Anchored s.text (a :: as) := by
  obtain ⟨sites, hsites, ha⟩ := h.inStep hd
  rw [hsteps, List.map_cons, hsite] at hsites
  cases sites with
  | nil => exact absurd hsites nofun
  | cons b as =>
    obtain rfl := Option.some.inj (List.cons.inj hsites).1
    have hst := ha.stands a List.mem_cons_self
    exact ⟨CallSite.patchesTo_of_patchTo hst.proper hst.stop_eq hpatch, as, ha⟩

theorem Kept.setStartPose {s s' : Session} {pose : Pose}
    {out : Except SessionError (Option HostEdit)} (h : s.Kept)
    (he : s.setStartPose pose = (s', out)) (hs : s'.text.size ≤ maxPlace) : s'.Kept := by
  cases poses_of_setStartPose he with
  | refused => exact h
  | unwritten hpose _ => exact h.poses hpose
  | @written _ _ routine first rest action a site edits _ _ hd hpose hsteps hmoved hsite hpatch
      hissue =>
    obtain ⟨hp, -⟩ := h.patchesTo hd hsteps hsite hpatch
    have hmid := h.poses hpose
    cases hissue
    refine ⟨?_, fun _ => ?_⟩
    · show Journal.Throughout _ (({ s with routine } : Session).write _).routine.history
      rw [history_write]
      exact hmid.sound
    · exact @Kept.write_startPose _ { first with action } rest a site edits hmid (hmid.inStep hd)
        hmoved hsite hp hs

end Session

end RoutineSync
