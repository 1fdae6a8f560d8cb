import RoutineSync.Proofs.Sync.Settled
import RoutineSync.Proofs.Sync.Sources
/-!
Writing an edit of the routine: as long as the calls of its steps stand in the text, no operation is
asked for something that is not there.
-/
set_option autoImplicit false

namespace RoutineSync

theorem CallSite.fit_of_patches? {s : CallSite} {before after : Action} {patches : List TextEdit}
    (hs : CallText.Proper ⟨s.text, s.params⟩) (h : s.patches? before after = some patches) :
    TextEdit.Fit 0 patches s.text := by
  obtain ⟨ps, hps, rfl⟩ := Option.map_eq_some_iff.1 h
  obtain ⟨hr, hsort⟩ := (CallSite.rewritings_of_patchesFor ⟨by simp, .nil⟩ hps).mergeSort
  exact hr.fit hs.ranged hsort

variable {steps : List Step} {sites : List CallSite} {t : Text}

theorem mem_of_site (h : steps.map (·.site) = sites.map some) {x : Step} (hx : x ∈ steps)
    {s : CallSite} (hs : s ∈ x.site) : s ∈ sites := by
  obtain ⟨a, hm, hxa⟩ := Step.exists_site h hx
  exact Option.some.inj (hxa.symm.trans hs) ▸ hm

theorem Anchored.standsIn_of_site (ha : Anchored t sites) (h : steps.map (·.site) = sites.map some)
    {x : Step} (hx : x ∈ steps) {s : CallSite} (hs : s ∈ x.site) : s.StandsIn t :=
  ha.stands s (mem_of_site h hx hs)

theorem Anchored.isPlace_of_site (ha : Anchored t sites) (h : steps.map (·.site) = sites.map some)
    {s : CallSite} (hs : s ∈ sitesOf steps) : t.isPlace s.start = true ∧ t.isPlace s.stop = true := by
  rw [sitesOf_eq h] at hs
  exact (ha.stands s hs).spansIn.liesIn.isPlace

/-- What is patched is the call of a step that stays. -/
theorem Rewrite.exists_staying {e : RoutineEdit} {r : Rewrite}
    (hsites : steps.map (·.site) = sites.map some) (ha : Anchored t sites)
    (hr : synthesize steps e (.byCount t) = .ok r)
    {patched : List (List TextEdit × ActionId × CallSite)}
    (h : (e.steps.zip (pairs 0 e.steps ((steps.drop e.index).take e.count))).filterMapM
      (patching ((steps.drop e.index).take e.count)) = .ok patched) :
    ∃ stay, Carries t r.edits stay ∧ ∀ p ∈ patched, ∃ x ∈ stay, x.site.start = p.2.2.start := by
  obtain ⟨-, m, hshares⟩ := exists_synthesis hr
  have hmarked : Marked t (sitesOf (steps.take e.index)
      ++ (((steps.drop e.index).take e.count).map (·.site)).reduceOption
      ++ sitesOf (steps.drop (e.index + e.count))) := by
    rw [sitesOf_parts, sitesOf_eq hsites]
    exact ha.marked
  rw [← hshares] at h
  obtain ⟨ps, hps, rfl, hall⟩ := patchings_of_filterMapM (hshares ▸ sited_of_mem_pairs) h
  refine ⟨_, m.carries hmarked, fun p hp => ?_⟩
  obtain ⟨p, hm, rfl⟩ := List.mem_map.1 hp
  have hshare : (p.step, some p.slot) ∈ m.shares.filter fun p => p.2.isSome :=
    hps ▸ List.mem_map.2 ⟨p, hm, rfl⟩
  obtain ⟨q, hq, -, hslot⟩ := m.exists_patching (List.mem_filter.1 hshare).1 rfl
  have hold := (hall p hm).old_eq
  have hsame := m.old_eq q hq
  rw [hslot, hold, Option.some.injEq, Option.some.injEq] at hsame
  refine ⟨⟨q.old, q.edits⟩, Synthesis.patched_staying hq, ?_⟩
  rw [(hall p hm).patched.start_eq, hsame]

namespace Operations.Faithful
variable {m : Type → Type} [Monad m] {o : Operations m}

/-- A place where no edit is moves to where its text is. -/
theorem land (ho : o.Faithful) {es : List TextEdit} {counts : TextEdit → Bool} {n : Nat}
    (hc : TextEdit.Cuts counts es n) (h : TextEdit.Fit 0 es t) (hn : t.isPlace n = true)
    (hs : (TextEdit.applyAll es t).size ≤ maxPlace) :
    Follows (TextEdit.landBy o.move es counts n) (TextEdit.landBy plain.move es counts n) := by
  obtain ⟨u, v, rfl, hu⟩ := Text.isPlace_iff.1 hn
  obtain ⟨hf, -, hall⟩ := hc.split h ((Nat.zero_add _).trans hu)
  rw [TextEdit.applyAll, hall, Text.size_append] at hs
  have hsize := hf.size_applyFrom
  exact ho.move (by omega) (by omega)

theorem landStart (ho : o.Faithful) {es : List TextEdit} {stay : List Rewrite.Staying}
    {x : Rewrite.Staying} (h : Rewrite.Carries t es stay)
    (hs : (TextEdit.applyAll es t).size ≤ maxPlace) (hx : x ∈ stay) :
    Follows (TextEdit.landStartBy o.move es x.site.start)
      (TextEdit.landStartBy plain.move es x.site.start) :=
  ho.land (TextEdit.cuts_atStart h.fit (h.clear_start hx)) h.fit (h.isPlace_start hx) hs

theorem landEnd (ho : o.Faithful) {es : List TextEdit} {stay : List Rewrite.Staying}
    {x : Rewrite.Staying} (h : Rewrite.Carries t es stay)
    (hs : (TextEdit.applyAll es t).size ≤ maxPlace) (hx : x ∈ stay) :
    Follows (TextEdit.landEndBy o.move es x.site.stop)
      (TextEdit.landEndBy plain.move es x.site.stop) :=
  ho.land (TextEdit.cuts_atEnd h.fit (h.clear_stop hx)) h.fit (h.isPlace_stop hx) hs

variable [LawfulMonad m]

/-- Each patch fits the call as the ones made before have left it. -/
theorem replaces (ho : o.Faithful) {p : Nat} {patches : List TextEdit} {t : Text}
    (h : TextEdit.Fit p patches t) (u : Text) (hu : u.size = p) :
    Follows (patches.foldrM (fun p t => o.replace p t) (u ++ t))
      (patches.foldrM (fun p t => plain.replace p t) (u ++ t)) := by
  induction h generalizing u with
  | nil => exact .pure _
  | @cons p a b c text es h ih =>
    subst hu
    have hs : (u ++ a ++ b).size = u.size + a.size + b.size := by simp only [Text.size_append]
    have hassoc : u ++ (a ++ b ++ c) = u ++ a ++ b ++ c := by simp only [List.append_assoc]
    have hrun : (es.foldrM (fun p t => plain.replace p t) (u ++ a ++ b ++ c)).run
        = u ++ a ++ b ++ TextEdit.applyFrom (u.size + a.size + b.size) es c :=
      (List.idRun_foldrM ..).trans (h.foldr_apply (u ++ a ++ b) hs)
    rw [hassoc, List.foldrM_cons, List.foldrM_cons]
    refine (ih (u ++ a ++ b) hs).bind ?_
    rw [hrun]
    refine ho.replace (Bool.and_eq_true_iff.2 ⟨?_, ?_⟩) (Nat.le_add_right _ _)
    · exact Text.isPlace_iff.2 ⟨u ++ a, _, List.append_assoc _ _ _,
        by simp only [Text.size_append, TextEdit.toChange]⟩
    · exact Text.isPlace_iff.2 ⟨u ++ a ++ b, _, rfl,
        by simp only [hs, TextChange.stop, TextEdit.toChange]; omega⟩

theorem kept (ho : o.Faithful) {s : CallSite} (hs : CallText.Proper ⟨s.text, s.params⟩)
    (before after : Action) : Follows (o.kept s before after) (plain.kept s before after) := by
  unfold Operations.kept
  split
  · exact .pure _
  · rename_i patches h
    obtain ⟨-, hpatches⟩ := Option.ite_none_right_eq_some.1 h
    exact (ho.replaces (CallSite.fit_of_patches? hs hpatches) [] rfl).bind (.pure _)

theorem patchTo (ho : o.Faithful) {s : CallSite} (hs : CallText.Proper ⟨s.text, s.params⟩)
    (before after : Action) :
    Follows (o.patchTo s before after).run (plain.patchTo s before after).run := by
  refine (Follows.ofExcept _).andThen fun _ _ => ?_
  refine (ho.kept hs before after).lift.andThen fun result _ => ?_
  cases result with
  | some result => exact .pure _
  | none => exact (Follows.ofExcept _).andThen fun _ _ => .pure _

theorem placedSites (ho : o.Faithful) {p : Nat} {parts : List Rewrite.Part} {t : Text}
    (h : TextEdit.Fit p (parts.map (·.edit)) t) (n : Nat) (shift : Int) (hn : (n : Int) = p + shift)
    (hs : n + (TextEdit.applyFrom p (parts.map (·.edit)) t).size ≤ maxPlace) :
    Follows (o.placedSites shift parts) (plain.placedSites shift parts) := by
  induction parts generalizing p t n shift with
  | nil => exact .pure _
  | cons part parts ih =>
    obtain ⟨edit, placed⟩ := part
    rw [List.map_cons] at h hs
    cases h with
    | @cons _ a b c text _ h =>
      rw [TextEdit.applyFrom_cons] at hs
      simp only [Text.size_append] at hs
      have hplace := @ho.move (p + a.size) shift (by omega) (by omega)
      have hbehind := ih h (n + a.size + text.size) (shift + (text.size - b.size)) (by omega)
        (by omega)
      have hdelta : TextEdit.delta ⟨⟨p + a.size, p + a.size + b.size⟩, text⟩
          = (text.size : Int) - b.size := by
        simp only [TextEdit.delta]
        omega
      rw [Operations.placedSites, Operations.placedSites, hdelta]
      exact hplace.bind (hbehind.bind (.pure _))

/-- Where the calls of the steps stand in the text, writing an edit goes as it does plainly. -/
theorem synthesize_anchored (ho : o.Faithful) {r : Access m} (hr : r.Reads t) {e : RoutineEdit}
    (hsites : steps.map (·.site) = sites.map some) (ha : Anchored t sites)
    (hs : ∀ w, Rewrite.synthesize steps e (.byCount t) = .ok w →
      (TextEdit.applyAll w.edits t).size ≤ maxPlace) :
    Follows (o.synthesize steps e r).run
      (plain.synthesize steps e (Source.byCount t).access).run := by
  have hstands : ∀ x ∈ steps, ∀ s ∈ x.site, s.StandsIn t := fun x hx s hs =>
    ha.standsIn_of_site hsites hx hs
  refine ho.synthesize hr (fun s hm => ha.isPlace_of_site hsites hm)
    (fun x hx s hm => ho.patchTo (hstands x hx s hm).proper _)
    fun w parts patched hw hedits hpatched => ?_
  obtain ⟨stay, hc, hstay⟩ := Rewrite.exists_staying hsites ha hw hpatched
  have hsize := hs w hw
  constructor
  · rw [hedits] at hc hsize
    exact ho.placedSites hc.fit 0 0 rfl (by rw [Nat.zero_add]; exact hsize)
  · refine .mapM fun p hp => ?_
    obtain ⟨x, hx, hstart⟩ := hstay p hp
    have hland := ho.landStart hc hsize hx
    rw [hstart] at hland
    exact hland.bind (.pure _)

end Operations.Faithful

end RoutineSync
