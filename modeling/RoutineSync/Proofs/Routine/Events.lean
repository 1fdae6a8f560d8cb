import RoutineSync.Proofs.Routine.Lists
/-!
What an event tells of an edit, and what writes in place leave alone.
-/
set_option autoImplicit false

namespace RoutineSync

/-- What there is to a step apart from its place in the text. -/
def Step.entry (s : Step) : ActionId × Action := (s.id, s.action)

namespace Routine

def entries (r : Routine) : List (ActionId × Action) := r.steps.map Step.entry

theorem entries_mapSites (r : Routine) (n : Nat) (f : CallSite → CallSite) :
    (r.mapSites n f).entries = r.entries :=
  congrArg Journal.items (r.map_mapSites (f := Step.entry) (fun _ _ => rfl) n f)

theorem entries_drift (r : Routine) (n : Nat) (d : Drift) : (r.drift n d).entries = r.entries :=
  congrArg Journal.items (r.map_drift (f := Step.entry) (fun _ _ => rfl) n d)

theorem entries_setSite? {r t : Routine} {id : ActionId} {site : Option CallSite}
    (h : r.setSite? id site = some t) : t.entries = r.entries :=
  congrArg Journal.items (map_setSite? (f := Step.entry) (fun _ _ => rfl) h)

theorem seq_setSite? {r t : Routine} {id : ActionId} {site : Option CallSite}
    (h : r.setSite? id site = some t) : t.seq = r.seq := by
  obtain ⟨index, -, rfl⟩ := Option.map_eq_some_iff.1 h
  rfl

theorem seq_setStartPose {r t : Routine} {pose previous : Pose}
    (h : r.setStartPose pose = .ok (previous, t)) : t.seq = r.seq := by
  obtain ⟨first, rest, radians, -, -, rfl⟩ := setStartPose_eq_ok_iff.1 h
  rfl

end Routine

/-- The event tells of the edit that made `t` out of `r`, under the next number. -/
structure RoutineEvent.Tells (event : RoutineEvent) (e : RoutineEdit) (r t : Routine) : Prop where
  fits : e.index + e.count ≤ r.size
  steps_eq : t.steps = Splice.run ⟨e.index, e.count, e.steps⟩ r.steps
  index_eq : event.index = e.index
  removed_eq : event.removed = (r.steps.drop e.index).take e.count
  length_inserted : event.inserted.length = e.steps.length
  seq_eq : event.seq = r.seq + 1
  seq_next : t.seq = event.seq

namespace Routine

theorem length_drop_take {steps : List Step} {index count : Nat}
    (h : index + count ≤ steps.length) : ((steps.drop index).take count).length = count := by
  rw [List.length_take, List.length_drop]
  omega

end Routine

theorem RoutineEvent.Tells.length_removed {event : RoutineEvent} {e : RoutineEdit} {r t : Routine}
    (h : event.Tells e r t) : event.removed.length = e.count := by
  rw [h.removed_eq]
  exact Routine.length_drop_take h.fits

namespace Routine

theorem tells_edit {r t : Routine} {e : RoutineEdit} {origin : Origin} {event : RoutineEvent}
    (h : r.edit e origin = .ok (some event, t)) : event.Tells e r t := by
  have hsteps := steps_edit h
  obtain ⟨hvalid, ⟨-, hnone, -⟩ | ⟨-, c, journal, event', -, hannounce, hsome⟩⟩ := edit_eq_ok h
  · exact absurd hnone nofun
  · obtain rfl := Option.some.inj hsome
    obtain ⟨rfl, rfl⟩ := Prod.mk.inj hannounce
    have hfits := (validate_eq_ok_iff.1 hvalid).1
    exact ⟨hfits, hsteps, rfl, rfl, rfl, rfl, rfl⟩

theorem seq_le_of_edit {r t : Routine} {e : RoutineEdit} {origin : Origin}
    {x : Option RoutineEvent} (h : r.edit e origin = .ok (x, t)) : r.seq ≤ t.seq := by
  cases x with
  | some event =>
    have htells := tells_edit h
    rw [htells.seq_next, htells.seq_eq]
    exact Nat.le_succ _
  | none =>
    obtain ⟨-, ⟨-, -, rfl⟩ | ⟨-, c, journal, event, -, -, hsome⟩⟩ := edit_eq_ok h
    · exact Nat.le_refl _
    · exact absurd hsome nofun

theorem tells_announceSplice {r : Routine} {journal : Journal Step} {splice : Splice Step}
    (hfits : splice.Fits r.steps) (hitems : journal.items = splice.run r.steps) :
    (r.announceSplice journal splice).1.Tells (.ofSplice splice) r
      (r.announceSplice journal splice).2 := by
  refine ⟨hfits, hitems, rfl, rfl, ?_, rfl, rfl⟩
  have hrun : splice.index + splice.inserted.length ≤ journal.items.length := by
    rw [hitems]
    exact (Splice.run_reverse hfits).1
  exact length_drop_take hrun

theorem tells_retrace {r t : Routine} {d : Direction} {e : RoutineEdit} {event : RoutineEvent}
    (hp : r.peek d = some e) (h : r.retrace d = .ok (some event, t)) : event.Tells e r t := by
  obtain ⟨splice, journal, rfl, hfits, hrun, ha⟩ := retrace_eq_announceSplice hp h
  have htells := tells_announceSplice hfits hrun
  rwa [ha] at htells

end Routine

end RoutineSync
