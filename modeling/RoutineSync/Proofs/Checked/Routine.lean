import RoutineSync.Proofs.Operations
import RoutineSync.Proofs.Routine.Events
import RoutineSync.Proofs.Sync.Rescan
/-!
A routine and its journal, whatever operations they are built on. The journal asks for the ranges of
its commands itself; that the history only leads through lists that fit them is what the routine
relies on.
-/
set_option autoImplicit false

namespace RoutineSync.Operations.Faithful
variable {α : Type} {m : Type → Type} [Monad m] [LawfulMonad m] {o : Operations m}

theorem exchange (ho : o.Faithful) (xs : List α) (s : Splice α) :
    Follows (o.exchange xs s).run (plain.exchange xs s).run :=
  (Follows.ofExcept _).andThen fun _ h => (ho.splice (checkRange_eq_ok_iff.1 h)).lift

theorem apply (ho : o.Faithful) (xs : List α) (c : Command α) :
    Follows (o.apply xs c).run (plain.apply xs c).run := by
  cases c with
  | append elements => exact .pure _
  | insert index elements => exact (ho.exchange _ _).andThen fun _ _ => .pure _
  | replace index count elements _ => exact (ho.exchange _ _).andThen fun _ _ => .pure _
  | remove index count _ => exact (ho.exchange _ _).andThen fun _ _ => .pure _

theorem revert (ho : o.Faithful) (xs : List α) (c : Command α) :
    Follows (o.revert xs c).run (plain.revert xs c).run := by
  cases c with
  | append elements =>
    refine .ite (fun h => ?_) fun _ => .throw _
    refine (ho.sub h).lift.andThen fun index hindex => ?_
    obtain rfl : xs.length - elements.length = index := Except.ok.inj hindex
    exact (ho.rest (Nat.sub_le _ _)).lift.andThen fun _ _ =>
      (ho.range (by omega)).lift.andThen fun _ _ => .pure _
  | insert index elements => exact (ho.exchange _ _).andThen fun _ _ => .pure _
  | replace index count elements replaced => exact (ho.exchange _ _).andThen fun _ _ => .pure _
  | remove index count removed => exact (ho.exchange _ _).andThen fun _ _ => .pure _

theorem step (ho : o.Faithful) (xs : List α) (d : Direction) (c : Command α) :
    Follows (o.step xs d c).run (plain.step xs d c).run := by
  cases d with
  | back => exact ho.revert xs c
  | forth => exact ho.apply xs c

theorem execute (ho : o.Faithful) (j : Journal α) (c : Command α) :
    Follows (o.execute j c).run (plain.execute j c).run :=
  (ho.apply _ _).andThen fun _ _ => .pure _

theorem walk (ho : o.Faithful) (d : Direction) (j : Journal α) :
    Follows (o.walk d j).run (plain.walk d j).run := by
  unfold Operations.walk
  cases (j.ahead d).head? with
  | none => exact .pure _
  | some c => exact (ho.step _ _ _).andThen fun _ _ => .pure _

theorem editRoutine (ho : o.Faithful) (r : Routine) (e : RoutineEdit) (origin : Origin) :
    Follows (o.editRoutine r e origin).run (plain.editRoutine r e origin).run := by
  refine (Follows.ofExcept _).andThen fun _ hvalid => ?_
  have hfits := (Routine.validate_eq_ok_iff.1 hvalid).1
  refine .ite (fun _ => .pure _) fun _ => ?_
  exact (ho.range hfits).lift.andThen fun _ _ => (ho.execute _ _).adapt.andThen fun _ _ => .pure _

/-- The splice of a step through the history is the one peeked at, so its ranges lie in the lists. -/
theorem retrace (ho : o.Faithful) {r : Routine} (h : r.Sound) (d : Direction) :
    Follows (o.retrace d r).run (plain.retrace d r).run := by
  unfold Operations.retrace
  cases hpeek : r.peek d with
  | none => exact .pure _
  | some e =>
    have hfits := (Routine.Throughout.peek (f := Step.outline) h hpeek).1
    refine (ho.range hfits).lift.andThen fun removed _ => ?_
    refine (ho.walk d r.journal).adapt.andThen fun x hx => ?_
    obtain ⟨_ | s, k⟩ := x
    · exact .pure _
    have hwalk : r.journal.walk d = .ok (some s, k) := Result.mapError_eq_ok_iff.1 hx
    obtain ⟨hfits, hitems⟩ := Journal.eq_run_of_walk hwalk
    have hrange : s.index + s.inserted.length ≤ k.items.length :=
      hitems ▸ (Splice.run_reverse hfits).1
    exact (ho.range hrange).lift.andThen fun _ _ => .pure _

section
variable {t : Text} {c : TextChange} {sites : List CallSite}

/-- What stands behind a change drifts to where its text is. -/
theorem driftStep (ho : o.Faithful) (v : Rescan.Surroundings t c sites) (ha : Anchored t sites)
    (hs : (c.apply t).size ≤ maxPlace) {x : Step} (hx : ∃ a ∈ v.right, x.site = some a) :
    Follows (o.driftStep ⟨c.stop, c.delta⟩ x) (plain.driftStep ⟨c.stop, c.delta⟩ x) := by
  obtain ⟨a, hm, hsite⟩ := hx
  obtain ⟨hstands, hstart, hstop⟩ := v.right_standsIn ha hs hm
  have hle := hstands.stop_le_size
  have hle' := hstands.start_lt_stop
  dsimp only at hle hle'
  have hmove := @ho.move a.start c.delta (by omega) (by omega)
  have hmove' := @ho.move a.stop c.delta (by omega) (by omega)
  rw [Operations.driftStep, Operations.driftStep, hsite]
  refine .bind (.bind ?_ (.bind ?_ (.pure _))) (.pure _)
  · exact .ite (fun _ => hmove) fun _ => .pure _
  · exact .ite (fun _ => hmove') fun _ => .pure _

theorem drift (ho : o.Faithful) {r : Routine} (v : Rescan.Surroundings t c sites)
    (ha : Anchored t sites) (hs : (c.apply t).size ≤ maxPlace)
    (h : r.steps.map (·.site) = sites.map some) :
    Follows (o.drift r (v.left.length + v.middle.length) ⟨c.stop, c.delta⟩)
      (plain.drift r (v.left.length + v.middle.length) ⟨c.stop, c.delta⟩) := by
  have hsites := h.trans (congrArg (List.map some) v.sites_eq)
  have hbehind : (r.steps.drop (v.left.length + v.middle.length)).map (·.site)
      = v.right.map some := by
    rw [List.map_drop, hsites, List.map_append, List.drop_left' (by simp)]
  exact .bind (.mapM fun x hx => ho.driftStep v ha hs (Step.exists_site hbehind hx)) (.pure _)

end

end RoutineSync.Operations.Faithful
