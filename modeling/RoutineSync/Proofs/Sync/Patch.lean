import RoutineSync.Proofs.Call.Written
import RoutineSync.Proofs.Sync.Anchored
import RoutineSync.Proofs.Text.Landing
import RoutineSync.Proofs.Result
import RoutineSync.Sync.Patch
/-!
Patching a call in place gives a call again: the patches cut into its text between characters, and
what they make of it is the text that is kept with the step.
-/
set_option autoImplicit false

namespace RoutineSync

namespace Action

theorem proper_of_generate {a : Action} {c : CallText} (h : a.generate = .ok c) : c.Proper := by
  obtain ⟨-, h⟩ := Result.check_eq_ok_iff.1 h
  split at h
  · rename_i d hd
    rw [Result.pure_eq_ok_iff] at h
    rw [← h]
    unfold CallShape.writeAction? at hd
    split at hd
    · exact CallShape.proper_of_write? hd
    · simp at hd
  · exact absurd h Result.throw_ne_ok

end Action

namespace CallSite
variable {s : CallSite}

/-- Each rewriting is of a range of the call's parameters, and of no range twice. -/
structure Rewritings (s : CallSite) (ps : List TextEdit) : Prop where
  ranges : ∀ p ∈ ps, ∃ e ∈ s.params, ∃ v : Value, p = ⟨e.2, v.source⟩
  distinct : ps.Pairwise fun p q => p.range ≠ q.range

theorem Rewritings.addPatch {ps : List TextEdit} (h : s.Rewritings ps) {e : String × ByteRange}
    (he : e ∈ s.params) (v : Value) : s.Rewritings (CallSite.addPatch e.2 v ps) := by
  unfold CallSite.addPatch
  split
  · exact h
  · rename_i hn
    simp only [List.any_eq_true, beq_iff_eq, not_exists, not_and] at hn
    constructor
    · intro p hp
      rcases List.mem_append.1 hp with hp | hp
      · exact h.ranges p hp
      · exact ⟨e, he, v, List.mem_singleton.1 hp⟩
    · rw [List.pairwise_append]
      refine ⟨h.distinct, List.pairwise_singleton _ _, fun p hp q hq => ?_⟩
      rw [List.mem_singleton.1 hq]
      exact hn p hp

theorem rewritings_of_patchesFor {before after : NameMap Value} {names : List String}
    {ps qs : List TextEdit} (h : s.Rewritings ps)
    (hq : s.patchesFor before after names ps = some qs) : s.Rewritings qs := by
  induction names generalizing ps with
  | nil => exact (Option.some.inj hq) ▸ h
  | cons name names ih =>
    rw [patchesFor] at hq
    split at hq
    · split at hq
      · exact ih h hq
      · simp only [Option.bind_eq_bind, Option.bind_eq_some_iff] at hq
        obtain ⟨range, hr, hq⟩ := hq
        exact ih (h.addPatch (NameMap.mem_of_get? hr) _) hq
    · simp at hq

theorem Rewritings.fit {ps : List TextEdit} (h : s.Rewritings ps)
    (hs : CallText.Ranged ⟨s.text, s.params⟩)
    (hsort : ps.Pairwise fun p q => p.range.start ≤ q.range.start) :
    TextEdit.Fit 0 ps s.text := by
  refine TextEdit.fit_of_pairwise (fun p hp => ?_) ?_
  · obtain ⟨e, he, v, rfl⟩ := h.ranges p hp
    obtain ⟨x, y, z, ht, hr, -⟩ := hs.inside e he
    exact ⟨x, y, z, ht, by simpa using hr⟩
  · refine (hsort.and h.distinct).imp_of_mem fun {p q} hp hq hpq => ?_
    obtain ⟨e, he, v, rfl⟩ := h.ranges p hp
    obtain ⟨f, hf, w, rfl⟩ := h.ranges q hq
    obtain ⟨x, y, z, -, hre, hy⟩ := hs.inside e he
    obtain ⟨x', y', z', -, hrf, hy'⟩ := hs.inside f hf
    have := Text.size_pos_of_ne_nil hy
    have := Text.size_pos_of_ne_nil hy'
    have := hs.apart_of_ne he hf hpq.2
    simp only [hre, hrf] at this hpq ⊢
    omega

theorem Rewritings.mergeSort {ps : List TextEdit} (h : s.Rewritings ps) :
    let qs := ps.mergeSort fun p q => p.range.start ≤ q.range.start
    s.Rewritings qs ∧ qs.Pairwise fun p q => p.range.start ≤ q.range.start := by
  intro qs
  have hperm : qs.Perm ps := List.mergeSort_perm _ _
  refine ⟨⟨fun p hm => h.ranges p (hperm.mem_iff.1 hm),
    (hperm.pairwise_iff Ne.symm).2 h.distinct⟩, ?_⟩
  have := @List.pairwise_mergeSort _ (fun p q : TextEdit => p.range.start ≤ q.range.start)
    (by simp only [decide_eq_true_eq]; omega) (by simp; omega) ps
  exact this.imp fun h => by simpa using h

/-- Rewritings leave the semicolon alone. -/
theorem Rewritings.closes {ps : List TextEdit} (h : s.Rewritings ps)
    (hs : CallText.Proper ⟨s.text, s.params⟩) (hf : TextEdit.Fit 0 ps s.text) :
    (TextEdit.applyAll ps s.text).getLast? = some ';' := by
  obtain ⟨body, hbody⟩ := List.getLast?_eq_some_iff.1 hs.closes
  simp only at hbody
  have hle : ∀ p ∈ ps, p.range.stop ≤ 0 + Text.size body := by
    intro p hp
    obtain ⟨e, he, v, rfl⟩ := h.ranges p hp
    obtain ⟨x, y, z, ht, hr, -, -, hz⟩ := hs.inside e he
    obtain ⟨z', hz'⟩ := List.getLast?_eq_some_iff.1 (show z.getLast? = some ';' by
      have := hs.closes
      rw [ht, List.getLast?_append] at this
      cases hl : z.getLast? with
      | none => exact absurd (List.getLast?_eq_none_iff.1 hl) hz
      | some c => simpa [hl] using this)
    simp only at ht
    rw [hbody, hz', ← List.append_assoc] at ht
    have := congrArg Text.size (List.append_inj_left' ht rfl)
    simp only [Text.size_append] at this
    simp only [hr]
    omega
  rw [hbody, ← List.append_nil ps] at hf
  have := (hf.split hle (by simp)).2.2
  rw [List.append_nil, TextEdit.applyFrom_nil] at this
  rw [TextEdit.applyAll, hbody, this]
  simp

/-- How a call is patched: some literals are rewritten in it, or all of it is written anew. -/
inductive Patched (s : CallSite) (after : Action) : List TextEdit → CallSite → Prop where
  | kept {ps : List TextEdit} {found : CallMatch} {values : NameMap Value}
      {ranges : NameMap ByteRange} : s.Rewritings ps →
      (ps.Pairwise fun p q => p.range.start ≤ q.range.start) →
      (CallShape.standard after.kind).match? (s.patched ps) = some found →
      found.extract? = some (values, ranges) →
      Patched s after (ps.map (TextEdit.shift s.start)) (s.rewritten ⟨s.patched ps, ranges⟩)
  | anew {call : CallText} : after.generate = .ok call →
      Patched s after [⟨s.range, call.text⟩] (s.rewritten call)

theorem patched_eq (ps : List TextEdit) :
    s.patched ps = ps.foldr (fun p t => p.toChange.apply t) s.text := by
  show (ps.foldrM (fun p t => pure (p.toChange.apply t)) s.text : Id Text).run = _
  rw [List.foldrM_pure]
  rfl

theorem kept_eq_some_iff {before after : Action} {result : List TextEdit × CallSite} :
    (Operations.plain.kept s before after).run = some result ↔
      ∃ ps, before.kind = after.kind ∧ s.patches? before after = some ps ∧
        s.reread? after.kind ps (s.patched ps) = some result := by
  unfold Operations.kept
  split
  · rename_i hnone
    constructor
    · intro h
      cases h
    · rintro ⟨ps, hkind, hps, -⟩
      rw [if_pos hkind, hps] at hnone
      cases hnone
  · rename_i ps hsome
    obtain ⟨hkind, hps⟩ := Option.ite_none_right_eq_some.1 hsome
    constructor
    · exact fun h => ⟨ps, hkind, hps, h⟩
    · rintro ⟨qs, -, hqs, h⟩
      obtain rfl : ps = qs := Option.some.inj (hps.symm.trans hqs)
      exact h

/-- A call of the same kind is kept where its patched text reads as a call, or else written anew. -/
theorem kept_or_anew {before after : Action} {edits : List TextEdit} {site : CallSite}
    (h : s.patchTo before after = .ok (edits, site)) :
    (∃ ps found values ranges, before.kind = after.kind ∧ s.patches? before after = some ps ∧
      (CallShape.standard after.kind).match? (s.patched ps) = some found ∧
      found.extract? = some (values, ranges) ∧
      edits = ps.map (TextEdit.shift s.start) ∧ site = s.rewritten ⟨s.patched ps, ranges⟩) ∨
    ∃ call, after.generate = .ok call ∧ edits = [⟨s.range, call.text⟩] ∧ site = s.rewritten call := by
  obtain ⟨_, -, h⟩ := Result.run_bind_eq_ok_iff.1 h
  obtain ⟨kept, hkept, h⟩ := Result.run_bind_eq_ok_iff.1 h
  cases kept with
  | none =>
    obtain ⟨call, hc, h⟩ := Result.run_bind_eq_ok_iff.1 h
    obtain ⟨rfl, rfl⟩ := Prod.mk.inj (Except.ok.inj h)
    exact .inr ⟨call, hc, rfl, rfl⟩
  | some result =>
    obtain rfl : result = (edits, site) := Except.ok.inj h
    obtain ⟨ps, hkind, hps, hread⟩ := kept_eq_some_iff.1 (Except.ok.inj hkept)
    simp only [reread?, Option.bind_eq_bind, Option.bind_eq_some_iff, Option.pure_def,
      Option.some.injEq, Prod.exists, Prod.mk.injEq] at hread
    obtain ⟨found, hfound, values, ranges, hex, rfl, rfl⟩ := hread
    exact .inl ⟨ps, found, values, ranges, hkind, hps, hfound, hex, rfl, rfl⟩

theorem patched_of_patchTo {before after : Action} {edits : List TextEdit} {site : CallSite}
    (h : s.patchTo before after = .ok (edits, site)) : s.Patched after edits site := by
  obtain ⟨ps, found, values, ranges, -, hp, hfound, hex, rfl, rfl⟩ | ⟨call, hc, rfl, rfl⟩ :=
    kept_or_anew h
  · obtain ⟨qs, hqs, rfl⟩ := Option.map_eq_some_iff.1 hp
    obtain ⟨hq, hsort⟩ := (rewritings_of_patchesFor ⟨by simp, .nil⟩ hqs).mergeSort
    exact .kept hq hsort hfound hex
  · exact .anew hc

theorem patchTo_of_match {before after : Action} {ps : List TextEdit} {found : CallMatch}
    {values : NameMap Value} {ranges : NameMap ByteRange} (hw : after.checkWritable = .ok ())
    (hkind : before.kind = after.kind) (hp : s.patches? before after = some ps)
    (hm : (CallShape.standard after.kind).match? (s.patched ps) = some found)
    (hex : found.extract? = some (values, ranges)) :
    s.patchTo before after
      = .ok (ps.map (TextEdit.shift s.start), s.rewritten ⟨s.patched ps, ranges⟩) := by
  have hkept : (Operations.plain.kept s before after).run
      = some (ps.map (TextEdit.shift s.start), s.rewritten ⟨s.patched ps, ranges⟩) := by
    refine kept_eq_some_iff.2 ⟨ps, hkind, hp, ?_⟩
    simp only [reread?, hm, hex, Option.bind_eq_bind, Option.bind_some]
    rfl
  refine Result.run_bind_eq_ok_iff.2 ⟨(), hw, Result.run_bind_eq_ok_iff.2 ⟨some _, ?_, rfl⟩⟩
  exact congrArg Except.ok hkept

theorem Patched.start_eq {after : Action} {edits : List TextEdit} {site : CallSite}
    (h : s.Patched after edits site) : site.start = s.start := by
  cases h <;> rfl

theorem Patched.inside {after : Action} {edits : List TextEdit} {site : CallSite}
    (h : s.Patched after edits site) (hstop : s.stop = s.start + s.text.size)
    (hs : ∀ e ∈ s.params, e.2.start ≤ e.2.stop ∧ e.2.stop ≤ s.text.size) :
    ∀ e ∈ edits, (s.start ≤ e.range.start ∧ e.range.start ≤ e.range.stop ∧ e.range.stop ≤ s.stop) ∧
      e.text ≠ [] := by
  cases h with
  | kept hp _ _ _ =>
    intro e he
    obtain ⟨p, hm, rfl⟩ := List.mem_map.1 he
    obtain ⟨f, hf, v, rfl⟩ := hp.ranges p hm
    have := hs f hf
    refine ⟨?_, v.source_ne_nil⟩
    dsimp only [TextEdit.shift]
    omega
  | anew hc =>
    intro e he
    rw [List.mem_singleton.1 he]
    refine ⟨⟨Nat.le_refl _, ?_, Nat.le_refl _⟩, (Action.proper_of_generate hc).ne_nil⟩
    show s.start ≤ s.stop
    omega

/-- What patching leads to: edits inside the call, and the call that they make of it. -/
structure PatchesTo (s : CallSite) (edits : List TextEdit) (site : CallSite) : Prop where
  fit : TextEdit.Fit s.start edits s.text
  text_eq : TextEdit.applyFrom s.start edits s.text = site.text
  start_eq : site.start = s.start
  stop_eq : site.stop = site.start + site.text.size
  ne_nil : site.text ≠ []
  proper : CallText.Proper ⟨s.text, s.params⟩ → CallText.Proper ⟨site.text, site.params⟩
  inside : ∀ e ∈ edits, s.start ≤ e.range.start ∧ e.range.start < e.range.stop ∧
    e.range.stop ≤ s.start + s.text.size

theorem patchesTo_generated {call : CallText} (hs : s.text ≠ [])
    (hstop : s.stop = s.start + s.text.size) (hc : call.Proper) :
    s.PatchesTo [⟨s.range, call.text⟩] (s.rewritten call) where
  fit := by
    have := @TextEdit.Fit.cons s.start [] s.text [] call.text [] .nil
    simpa [range, hstop] using this
  text_eq := by
    have := TextEdit.applyFrom_cons s.start [] s.text [] call.text []
    simpa [range, hstop, TextEdit.applyFrom_nil, rewritten] using this
  start_eq := rfl
  stop_eq := rfl
  ne_nil := hc.ne_nil
  proper _ := hc
  inside := by
    have := Text.size_pos_of_ne_nil hs
    simp only [List.mem_singleton, forall_eq, range, hstop]
    omega

/-- A call of which a beginning is read as a call stays one where it is patched. -/
theorem Rewritings.proper_patched {ps : List TextEdit} {kind : ActionKind} {found : CallMatch}
    {values : NameMap Value} {ranges : NameMap ByteRange} (h : s.Rewritings ps)
    (hs : CallText.Proper ⟨s.text, s.params⟩) (hf : TextEdit.Fit 0 ps s.text)
    (hpatched : s.patched ps = TextEdit.applyAll ps s.text)
    (hfound : (CallShape.standard kind).match? (s.patched ps) = some found)
    (hex : found.extract? = some (values, ranges)) : CallText.Proper ⟨s.patched ps, ranges⟩ := by
  have hproper := CallShape.proper_of_match? hfound hex
  obtain ⟨rest, hrest⟩ := CallShape.prefix_of_match? hfound
  refine ⟨hproper.opens.trans ⟨rest, hrest⟩, ?_, fun e he => ?_, hproper.apart⟩
  · show (s.patched ps).getLast? = _
    rw [hpatched]
    exact h.closes hs hf
  · obtain ⟨x, y, z, ht, hr, hx, hy, hz⟩ := hproper.inside e he
    simp only at ht
    refine ⟨x, y, z ++ rest, ?_, hr, hx, hy, by simp [hz]⟩
    show s.patched ps = _
    rw [← hrest, ht]
    simp only [List.append_assoc]

theorem Rewritings.patchesTo {ps : List TextEdit} {kind : ActionKind} {found : CallMatch}
    {values : NameMap Value} {ranges : NameMap ByteRange} (hp : s.Rewritings ps)
    (hs : CallText.Ranged ⟨s.text, s.params⟩)
    (hsort : ps.Pairwise fun p q => p.range.start ≤ q.range.start)
    (hfound : (CallShape.standard kind).match? (s.patched ps) = some found)
    (hex : found.extract? = some (values, ranges)) :
    s.PatchesTo (ps.map (TextEdit.shift s.start)) (s.rewritten ⟨s.patched ps, ranges⟩) := by
  have hfit := hp.fit hs hsort
  have hshift := hfit.shift s.start
  have hpatched : s.patched ps = TextEdit.applyAll ps s.text :=
    (patched_eq ps).trans (hfit.foldr_apply [] rfl)
  refine ⟨hshift.1, ?_, rfl, rfl, ?_, fun h => hp.proper_patched h hfit hpatched hfound hex, ?_⟩
  · rw [hpatched]
    exact hshift.2
  · have hopens := CallShape.opens_of_match? hfound
    exact fun h0 => absurd (show "auton".toList <+: [] from h0 ▸ hopens) (by decide)
  · intro e he
    obtain ⟨p, hm, rfl⟩ := List.mem_map.1 he
    obtain ⟨f, hf, v, rfl⟩ := hp.ranges p hm
    obtain ⟨x, y, z, ht, hr, hy⟩ := hs.inside f hf
    have h1 := congrArg Text.size ht
    have h2 := Text.size_pos_of_ne_nil hy
    simp only [Text.size_append] at h1
    simp only [TextEdit.shift, hr]
    omega

theorem Patched.patchesTo {after : Action} {edits : List TextEdit} {site : CallSite}
    (h : s.Patched after edits site) (hs : CallText.Ranged ⟨s.text, s.params⟩)
    (hne : s.text ≠ []) (hstop : s.stop = s.start + s.text.size) : s.PatchesTo edits site := by
  cases h with
  | kept hp hsort hfound hex => exact hp.patchesTo hs hsort hfound hex
  | anew hc => exact patchesTo_generated hne hstop (Action.proper_of_generate hc)

theorem patchesTo_of_patchTo {before after : Action} {edits : List TextEdit} {site : CallSite}
    (hs : CallText.Proper ⟨s.text, s.params⟩) (hstop : s.stop = s.start + s.text.size)
    (h : s.patchTo before after = .ok (edits, site)) : s.PatchesTo edits site :=
  (patched_of_patchTo h).patchesTo hs.ranged hs.ne_nil hstop

end CallSite

end RoutineSync
