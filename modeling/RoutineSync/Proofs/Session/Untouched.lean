import RoutineSync.Proofs.Session.Selected
/-!
Steps that a change by the host does not touch: they keep everything but, behind the change, their
places, which move along with the text.
-/
set_option autoImplicit false

namespace RoutineSync

namespace Step

def endsBefore (c : TextChange) (x : Step) : Bool := x.site.any fun a => a.stop < c.offset

def startsBehind (c : TextChange) (x : Step) : Bool := x.site.any fun a => c.stop < a.start

/-- The same step, its call as many bytes further on. -/
structure Shifted (d : Int) (x y : Step) : Prop where
  id_eq : y.id = x.id
  action_eq : y.action = x.action
  moved : ∃ a b, x.site = some a ∧ y.site = some b ∧ b.text = a.text ∧ b.params = a.params ∧
    (b.start : Int) = a.start + d ∧ (b.stop : Int) = a.stop + d

end Step

namespace Rescan.Surroundings
variable {t : Text} {c : TextChange} {sites : List CallSite} {steps : List Step}

theorem exists_parts (v : Surroundings t c sites) (h : steps.map (·.site) = sites.map some) :
    ∃ xs ys zs : List Step, steps = xs ++ ys ++ zs ∧ xs.map (·.site) = v.left.map some ∧
      ys.map (·.site) = v.middle.map some ∧ zs.map (·.site) = v.right.map some := by
  rw [v.sites_eq, List.map_append, List.map_append] at h
  obtain ⟨ls, zs, rfl, hls, hzs⟩ := List.map_eq_append_iff.1 h
  obtain ⟨xs, ys, rfl, hxs, hys⟩ := List.map_eq_append_iff.1 hls
  exact ⟨xs, ys, zs, rfl, hxs, hys, hzs⟩

theorem endsBefore_left (v : Surroundings t c sites) {x : Step} {a : CallSite} (ha : a ∈ v.left)
    (hx : x.site = some a) : x.endsBefore c = true ∧ x.startsBehind c = false := by
  have h1 := v.left_lt a ha
  have h2 := v.start_lt_stop a (by rw [v.sites_eq]; simp [ha])
  have h3 : c.offset ≤ c.stop := Nat.le_add_right _ _
  simp only [Step.endsBefore, Step.startsBehind, hx, Option.any_some, decide_eq_true_eq,
    decide_eq_false_iff_not]
  omega

theorem touched_middle (v : Surroundings t c sites) {x : Step} {a : CallSite} (ha : a ∈ v.middle)
    (hx : x.site = some a) : x.endsBefore c = false ∧ x.startsBehind c = false := by
  have h1 := v.touches a ha
  simp only [Step.endsBefore, Step.startsBehind, hx, Option.any_some, decide_eq_false_iff_not]
  omega

theorem startsBehind_right (v : Surroundings t c sites) {x : Step} {a : CallSite}
    (ha : a ∈ v.right) (hx : x.site = some a) :
    x.endsBefore c = false ∧ x.startsBehind c = true := by
  have h1 := v.lt_right a ha
  have h2 := v.start_lt_stop a (by rw [v.sites_eq]; simp [ha])
  have h3 : c.offset ≤ c.stop := Nat.le_add_right _ _
  simp only [Step.endsBefore, Step.startsBehind, hx, Option.any_some, decide_eq_true_eq,
    decide_eq_false_iff_not]
  omega

/-- Before a change, touched by it, and behind it: every step is one of these, in this order. -/
theorem parts_eq_filter (v : Surroundings t c sites) (h : steps.map (·.site) = sites.map some) :
    steps.take v.left.length = steps.filter (·.endsBefore c) ∧
      steps.drop (v.left.length + v.middle.length) = steps.filter (·.startsBehind c) ∧
      ∀ x ∈ (steps.drop v.left.length).take v.middle.length,
        x ∈ steps ∧ x.endsBefore c = false ∧ x.startsBehind c = false := by
  obtain ⟨xs, ys, zs, rfl, hxs, hys, hzs⟩ := v.exists_parts h
  have hleft := fun x hx =>
    (Step.exists_site hxs hx).elim fun a ha => v.endsBefore_left (x := x) ha.1 ha.2
  have hmiddle := fun x hx =>
    (Step.exists_site hys hx).elim fun a ha => v.touched_middle (x := x) ha.1 ha.2
  have hright := fun x hx =>
    (Step.exists_site hzs hx).elim fun a ha => v.startsBehind_right (x := x) ha.1 ha.2
  have hxlen : xs.length = v.left.length := by simpa using congrArg List.length hxs
  have hylen : ys.length = v.middle.length := by simpa using congrArg List.length hys
  have hnone : ∀ (f : Step → Bool) (l : List Step), (∀ x ∈ l, f x = false) → l.filter f = [] :=
    fun f l hl => List.filter_eq_nil_iff.2 fun x hx => by simp [hl x hx]
  refine ⟨?_, ?_, ?_⟩
  · rw [List.filter_append, List.filter_append, hnone _ ys fun x hx => (hmiddle x hx).1,
      hnone _ zs fun x hx => (hright x hx).1, List.filter_eq_self.2 fun x hx => (hleft x hx).1,
      List.append_nil, List.append_nil, List.append_assoc, List.take_left' hxlen]
  · rw [List.filter_append, List.filter_append, hnone _ xs fun x hx => (hleft x hx).2,
      hnone _ ys fun x hx => (hmiddle x hx).2, List.filter_eq_self.2 fun x hx => (hright x hx).2,
      List.nil_append, List.nil_append, List.drop_left' (by simp [hxlen, hylen])]
  · rw [List.append_assoc, List.drop_left' hxlen, List.take_left' hylen]
    exact fun x hx => ⟨by simp [hx], hmiddle x hx⟩

theorem forall₂_shifted (v : Surroundings t c sites) (h : steps.map (·.site) = sites.map some)
    (ha : Anchored t sites) (hs : (c.apply t).size ≤ maxPlace) :
    List.Forall₂ (Step.Shifted c.delta) (steps.drop (v.left.length + v.middle.length))
      ((steps.drop (v.left.length + v.middle.length)).map fun x =>
        { x with site := x.site.map (Drift.moved ⟨c.stop, c.delta⟩) }) := by
  obtain ⟨xs, ys, zs, rfl, hxs, hys, hzs⟩ := v.exists_parts h
  have hlen : (xs ++ ys).length = v.left.length + v.middle.length := by
    simpa using congrArg₂ (fun a b => List.length a + List.length b) hxs hys
  rw [List.drop_left' hlen, List.forall₂_map_right_iff, List.forall₂_same]
  intro x hx
  obtain ⟨a, ha', hsite⟩ := Step.exists_site hzs hx
  obtain ⟨-, hstart, hstop⟩ := v.right_standsIn ha hs ha'
  exact ⟨rfl, rfl, a, Drift.moved ⟨c.stop, c.delta⟩ a, hsite, congrArg (Option.map _) hsite, rfl, rfl,
    hstart, hstop⟩

end Rescan.Surroundings

/-- A scanned step takes over the identity of a replaced one of its kind or is given a new one. -/
theorem origin_of_mem_freshSteps {cs : List ScannedCall} {bias : Nat} {supply : IdSupply}
    {replaced : List Step} {y : Step} (h : y ∈ freshSteps cs bias supply replaced) :
    (∃ x ∈ replaced, x.id = y.id ∧ x.kind = y.kind) ∨
      ∃ k, supply.next ≤ k ∧ k < supply.next + cs.length ∧ y.id = ⟨BitVec.ofNat 128 k⟩ := by
  rcases Rescan.origin_of_mem_inheritIds h with h | h
  · rw [List.map_map] at h
    obtain ⟨p, hp, hid⟩ := List.mem_map.1 h
    exact .inr ⟨p.2, List.le_snd_of_mem_zipIdx hp, List.snd_lt_add_of_mem_zipIdx hp, hid.symm⟩
  · exact .inl h

namespace Session

/-- A change that fits and leaves the routine valid replaces only the steps whose calls it touches.
Those before it stay, those behind it move with the text, in the order they had; the others are new
or inherit an identity from a touched step of their kind, each identity once. -/
theorem untouched_of_notice {s : Session} {c : TextChange} {echo : Option Nat} {plan : RescanPlan}
    {supply supply' : IdSupply} (hs : s.Attended) (hd : s.desynced = false)
    (hecho : ∀ seq ∈ echo, seq ∉ s.pending) (hfits : c.fits s.text = true)
    (hsize : (c.apply s.text).size ≤ maxPlace)
    (hplan : (Rescan.plan s.steps c s.text).run supply = (plan, supply'))
    (hvalid : s.routine.validate plan.edit = .ok ()) :
    ∃ t told fresh behind, (s.notice ⟨echo, [c]⟩).run supply = ((t, .ok told), supply') ∧
      t.text = c.apply s.text ∧ t.desynced = false ∧
      t.steps = s.steps.filter (·.endsBefore c) ++ fresh ++ behind ∧
      List.Forall₂ (Step.Shifted (c.text.size - c.length))
        (s.steps.filter (·.startsBehind c)) behind ∧
      (∀ y ∈ fresh,
        (∃ x ∈ s.steps, x.endsBefore c = false ∧ x.startsBehind c = false ∧ x.id = y.id ∧
          x.kind = y.kind) ∨
        ∃ k, supply.next ≤ k ∧ k < supply'.next ∧ y.id = ⟨BitVec.ofNat 128 k⟩) ∧
      t.routine.ids.Nodup := by
  obtain ⟨sites, hsites, ha⟩ := hs.kept.inStep hd
  obtain ⟨v⟩ := Rescan.nonempty_surroundings ha hfits
  obtain ⟨rfl, rfl⟩ := Prod.mk.inj ((run_plan hsites v supply).symm.trans hplan)
  obtain ⟨t, told, hrun, htext, -, ⟨-, hd', hsound, hsteps⟩ | ⟨hinvalid, -⟩⟩ :=
    run_takeChange hs.kept hd hsites v supply
  · obtain ⟨hbefore, hbehind, htouched⟩ := v.parts_eq_filter hsites
    have hshifted := v.forall₂_shifted hsites ha hsize
    rw [hbehind] at hshifted hsteps
    rw [hbefore] at hsteps
    refine ⟨t, told, _, _, ?_, htext, hd', hsteps, hshifted, fun y hy => ?_, Routine.ids_nodup hsound⟩
    · rw [run_notice hecho (run_takeChanges_of_taken hfits hrun [] []), run_conclude_of_inStep hd']
      rfl
    · rcases origin_of_mem_freshSteps hy with ⟨x, hx, hsame⟩ | hnew
      · obtain ⟨hmem, hx⟩ := htouched x hx
        exact .inl ⟨x, hmem, hx.1, hx.2, hsame⟩
      · exact .inr hnew
  · exact absurd hvalid hinvalid

/-- A coordinate gets a second digit: the call that holds it keeps its identity through the scan, and
the one behind it moves on by a byte. -/
theorem untouched_of_notice_widened :
    let c : TextChange := ⟨15, 1, "10".toList⟩
    ∃ (s t : Session) (told : List ViewMessage) (fresh behind : List Step) (supply' : IdSupply),
      s.Attended ∧ s.desynced = false ∧ (s.notice ⟨none, [c]⟩).run ⟨2⟩ = ((t, .ok told), supply') ∧
      t.steps = fresh ++ behind ∧ (s.steps.filter (·.startsBehind c)).map (·.kind) = [.shoot] ∧
      List.Forall₂ (Step.Shifted 1) (s.steps.filter (·.startsBehind c)) behind ∧
      t.routine.ids = s.routine.ids := by
  intro c
  let shoot : Request := .edit (.insert 1 [⟨⟨1⟩, .shoot, none⟩])
  have hall : ((Session.start "auton::setPose(0, 0, 0);".toList).run ⟨0⟩).1.toOption.any (fun s₀ =>
      let s := ((s₀.respond shoot).run ⟨2⟩).1
      (s₀.heldTexts shoot ⟨2⟩).all (fun t => t.size ≤ maxPlace) && !s.desynced && c.fits s.text
        && (c.apply s.text).size ≤ maxPlace
        && s.routine.validate ((Rescan.plan s.steps c s.text).run ⟨2⟩).1.edit == .ok ()
        && s.steps.filter (·.endsBefore c) == []
        && (s.steps.filter (·.startsBehind c)).map (·.kind) == [.shoot]
        && ((s.notice ⟨none, [c]⟩).run ⟨2⟩).1.1.routine.ids == s.routine.ids) = true := by
    decide +kernel
  obtain ⟨s₀, hs₀, hall⟩ := (Option.any_eq_true _ _).1 hall
  rw [Result.toOption_eq_some_iff] at hs₀
  simp only [Bool.and_eq_true, List.all_eq_true, decide_eq_true_eq, beq_iff_eq,
    Bool.not_eq_true'] at hall
  obtain ⟨⟨⟨⟨⟨⟨⟨hsizes, hd⟩, hfits⟩, hsize⟩, hvalid⟩, hbefore⟩, hbehind⟩, hids⟩ := hall
  have hs := @Attended.respond s₀ ⟨2⟩ shoot (.start (Prod.ext hs₀ rfl)) hsizes
  have hecho : ∀ seq ∈ (none : Option Nat), seq ∉ ((s₀.respond shoot).run ⟨2⟩).1.pending := by simp
  obtain ⟨t, told, fresh, behind, hrun, -, -, hsteps, hshifted, -⟩ :=
    untouched_of_notice hs hd hecho hfits hsize rfl hvalid
  rw [hbefore] at hsteps
  rw [hrun] at hids
  exact ⟨_, t, told, fresh, behind, _, hs, hd, hrun, hsteps, hbehind, hshifted, hids⟩

end Session

end RoutineSync
