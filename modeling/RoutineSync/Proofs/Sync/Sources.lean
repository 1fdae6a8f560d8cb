import Mathlib.Data.List.Basic
import RoutineSync.Proofs.Scan.Found
import RoutineSync.Proofs.Sync.Deletion
import RoutineSync.Proofs.Sync.Synthesis
import RoutineSync.Sync.Rescan
/-!
Searching for the ends of a line and counting newlines give the same places. A rescan and a rewriting
only read a text at its places, so it does not matter to them how the text is kept and how its lines
are found.
-/
set_option autoImplicit false

namespace RoutineSync

namespace Text

theorem throughLastNewline_eq_zero {b : Text} (hb : '\n' ∉ b) : throughLastNewline b = 0 := by
  induction b with
  | nil => rfl
  | cons c b ih =>
    rw [List.mem_cons, not_or] at hb
    rw [throughLastNewline, ih hb.2]
    simp [Ne.symm hb.1]

theorem throughLastNewline_append {a b : Text} (hb : '\n' ∉ b)
    (ha : a = [] ∨ ∃ c : Text, a = c ++ ['\n']) : throughLastNewline (a ++ b) = size a := by
  rcases ha with rfl | ⟨c, rfl⟩
  · exact throughLastNewline_eq_zero hb
  · induction c with
    | nil =>
      rw [List.nil_append, List.singleton_append, throughLastNewline, throughLastNewline_eq_zero hb]
      rfl
    | cons d c ih =>
      have hpos : size (c ++ ['\n']) ≠ 0 := by
        rw [size_append]
        exact Nat.ne_of_gt (Nat.lt_add_left _ Nat.one_pos)
      rw [List.cons_append, List.cons_append, throughLastNewline, ih, if_pos hpos, size_cons]

theorem toFirstNewline_append {a b : Text} (ha : '\n' ∉ a)
    (hb : b = [] ∨ ∃ c : Text, b = '\n' :: c) : toFirstNewline (a ++ b) = size a := by
  induction a with
  | nil => rcases hb with rfl | ⟨c, rfl⟩ <;> rfl
  | cons d a ih =>
    rw [List.mem_cons, not_or] at ha
    rw [List.cons_append, toFirstNewline, if_neg (Ne.symm ha.1), ih ha.2, size_cons]

end Text

namespace Source
variable {t : Text} {n : Nat}

theorem lineStart_bySearch (h : t.isPlace n = true) :
    (bySearch t).lineStart n = (byCount t).lineStart n := by
  obtain ⟨u, v, rfl, rfl⟩ := Text.isPlace_iff.1 h
  obtain ⟨a, b, rfl, hb, ha⟩ := Text.exists_lastLine u
  have hslice : (a ++ b ++ v).slice 0 (a ++ b).size = a ++ b := by
    have := Text.slice_append [] (a ++ b) v
    rwa [List.nil_append, Text.size_nil, Nat.zero_add] at this
  rw [lineStart_byCount v hb ha]
  simp only [bySearch, hslice]
  exact Text.throughLastNewline_append hb ha

theorem lineEnd_bySearch (h : t.isPlace n = true) :
    (bySearch t).lineEnd n = (byCount t).lineEnd n := by
  have hplace := h
  obtain ⟨u, v, rfl, rfl⟩ := Text.isPlace_iff.1 h
  obtain ⟨a, b, rfl, ha, hb⟩ := Text.exists_firstLine v
  rw [lineEnd_byCount u ha hb, Text.size_append]
  simp only [bySearch, if_pos hplace, Text.after_append]
  rw [Text.toFirstNewline_append ha hb]

theorem isPlace_lineStart (h : t.isPlace n = true) :
    t.isPlace ((byCount t).lineStart n) = true ∧ (byCount t).lineStart n ≤ n := by
  obtain ⟨u, v, rfl, rfl⟩ := Text.isPlace_iff.1 h
  obtain ⟨a, b, rfl, hb, ha⟩ := Text.exists_lastLine u
  rw [lineStart_byCount v hb ha, Text.size_append]
  exact ⟨Text.isPlace_iff.2 ⟨a, b ++ v, List.append_assoc _ _ _, rfl⟩, Nat.le_add_right _ _⟩

theorem isPlace_lineEnd (h : t.isPlace n = true) :
    t.isPlace ((byCount t).lineEnd n) = true ∧ n ≤ (byCount t).lineEnd n := by
  obtain ⟨u, v, rfl, rfl⟩ := Text.isPlace_iff.1 h
  obtain ⟨a, b, rfl, ha, hb⟩ := Text.exists_firstLine v
  rw [lineEnd_byCount u ha hb]
  refine ⟨Text.isPlace_iff.2 ⟨u ++ a, b, (List.append_assoc _ _ _).symm, rfl⟩, ?_⟩
  rw [Text.size_append]
  exact Nat.le_add_right _ _

theorem reads_bySearch (t : Text) : ((bySearch t).access : Access Id).Reads t where
  size_eq := rfl
  slice _ _ _ := rfl
  lineStart h := lineStart_bySearch h
  lineEnd h := lineEnd_bySearch h

end Source

namespace Rescan
variable {steps : List Step} {c : TextChange} {t : Text}

theorem exists_of_mem_written {p : Nat × CallSite} (h : p ∈ written steps) :
    p.1 < steps.length ∧ p.2 ∈ sitesOf steps := by
  obtain ⟨⟨x, i⟩, hx, hp⟩ := List.mem_filterMap.1 h
  obtain ⟨s, hs, rfl⟩ := Option.map_eq_some_iff.1 hp
  exact ⟨List.snd_lt_of_mem_zipIdx hx, mem_sitesOf_iff.2 ⟨x, List.fst_mem_of_mem_zipIdx hx, hs⟩⟩

theorem pairwise_written (steps : List Step) : (written steps).Pairwise fun p q => p.1 < q.1 := by
  refine List.pairwise_filterMap.2 (List.pairwise_iff_getElem.2 fun i j hi hj hij => ?_)
  rintro p hp q hq
  obtain ⟨s, -, rfl⟩ := Option.map_eq_some_iff.1 hp
  obtain ⟨r, -, rfl⟩ := Option.map_eq_some_iff.1 hq
  simpa using hij

theorem le_of_hit {hit : List (Nat × CallSite)} (h : hit.Sublist (written steps))
    {first last : Nat × CallSite} (hfirst : hit.head? = some first)
    (hlast : hit.getLast? = some last) : first.1 ≤ last.1 ∧ last.1 < steps.length := by
  refine ⟨?_, (exists_of_mem_written (h.subset (List.mem_of_getLast? hlast))).1⟩
  obtain ⟨rear, rfl⟩ := List.head?_eq_some_iff.1 hfirst
  have hordered := List.pairwise_cons.1 ((pairwise_written steps).sublist h)
  rcases List.mem_cons.1 (List.mem_of_getLast? hlast) with rfl | hmem
  · exact Nat.le_refl _
  · exact Nat.le_of_lt (hordered.1 last hmem)

theorem touched_le (steps : List Step) (c : TextChange) :
    (Operations.plain.touched steps c).run.1 + (Operations.plain.touched steps c).run.2
      ≤ steps.length := by
  unfold Operations.touched
  dsimp only
  split
  · rename_i first _ last _ hfirst hlast
    obtain ⟨hle, hlt⟩ : first ≤ last ∧ last < steps.length :=
      le_of_hit List.filter_sublist hfirst hlast
    show first + (last - first + 1) ≤ steps.length
    omega
  · split
    · rename_i hlast
      obtain ⟨hmem, -⟩ := List.mem_filter.1 (List.mem_of_getLast? hlast)
      exact (exists_of_mem_written hmem).1
    · exact Nat.zero_le _

theorem affected_start (hsites : ∀ s ∈ sitesOf steps, t.isPlace s.stop = true) (size : Nat) :
    t.isPlace (affected steps c size).start = true ∧ (affected steps c size).start ≤ c.offset := by
  simp only [affected]
  split
  · rename_i i s hlast
    obtain ⟨hmem, hlt⟩ := List.mem_filter.1 (List.mem_of_getLast? hlast)
    exact ⟨hsites s (exists_of_mem_written hmem).2, Nat.le_of_lt (of_decide_eq_true hlt)⟩
  · exact ⟨Text.isPlace_iff.2 ⟨[], t, rfl, rfl⟩, Nat.zero_le _⟩

theorem affected_stop (hsites : ∀ s ∈ sitesOf steps, t.isPlace s.start = true)
    (hc : t.isPlace c.stop = true) :
    t.isPlace (affected steps c t.size).stop = true ∧ c.stop ≤ (affected steps c t.size).stop := by
  simp only [affected]
  split
  · rename_i i s hfound
    have hlt := List.find?_some hfound
    exact ⟨hsites s (exists_of_mem_written (List.mem_of_find?_eq_some hfound)).2,
      Nat.le_of_lt (of_decide_eq_true hlt)⟩
  · obtain ⟨a, b, rfl, hsize⟩ := Text.isPlace_iff.1 hc
    refine ⟨Text.isPlace_iff.2 ⟨a ++ b, [], by simp, rfl⟩, ?_⟩
    rw [Text.size_append]
    omega

end Rescan

namespace Rewrite
variable {ss replaced : List Step}

theorem lt_of_mem_pairs {p : Step × Option Nat} (hp : p ∈ ss.zip (pairs 0 ss replaced)) {k : Nat}
    (hk : p.2 = some k) : k < replaced.length := by
  obtain ⟨old, hold, -⟩ := sited_of_mem_pairs p hp k hk
  exact (List.getElem?_eq_some_iff.1 hold).1

theorem lt_of_mem_runs {x : Option Nat × List Step × Option Nat}
    (hx : x ∈ runs none (ss.zip (pairs 0 ss replaced)) []) :
    (∀ k, x.1 = some k → k < replaced.length) ∧ ∀ k, x.2.2 = some k → k < replaced.length := by
  obtain ⟨hprevious, hnext, -⟩ := slots_of_mem_runs hx (pairwise_pairs 0 _ _) (by simp)
  refine ⟨fun k hk => ?_, fun k hk => ?_⟩
  · obtain ⟨p, hp, j, hpj, hj⟩ := hprevious.resolve_left (by simp [hk])
    exact lt_of_mem_pairs hp (hpj.trans (hj.symm.trans hk))
  · obtain ⟨p, hp, hpk⟩ := hnext.resolve_left (by simp [hk])
    exact lt_of_mem_pairs hp (hpk.trans hk)

end Rewrite

variable {m : Type → Type} [Monad m] [LawfulMonad m]

namespace Access.Reads
variable {r : Access m} {t : Text}

theorem fragment (h : r.Reads t) {steps : List Step} {c : TextChange} (hc : c.fits t = true)
    (hsites : ∀ s ∈ sitesOf steps, t.isPlace s.start = true ∧ t.isPlace s.stop = true) :
    Follows (r.fragment steps c) ((Source.byCount t).access.fragment steps c) := by
  obtain ⟨hoffset, hstop⟩ : t.isPlace c.offset = true ∧ t.isPlace c.stop = true := by
    simpa [TextChange.fits] using hc
  obtain ⟨hs, hle⟩ := Rescan.affected_start (c := c) (fun s hs => (hsites s hs).2) t.size
  obtain ⟨he, hge⟩ := Rescan.affected_stop (fun s hs => (hsites s hs).1) hstop
  rw [Access.fragment, h.size_eq]
  exact (h.slice hs hoffset hle).bind ((h.slice hstop he hge).bind (.pure _))

theorem indentation (h : r.Reads t) {n : Nat} (hn : t.isPlace n = true) :
    Follows (r.indentation n) ((Source.byCount t).access.indentation n) := by
  obtain ⟨hs, hle⟩ := Source.isPlace_lineStart hn
  exact (h.lineStart hn).bind ((h.slice hs hn hle).bind (.pure _))

theorem frame (h : r.Reads t) {next previous : Option CallSite}
    (hnext : ∀ s ∈ next, t.isPlace s.start = true)
    (hprevious : ∀ s ∈ previous, t.isPlace s.start = true) :
    Follows (r.frame next previous) ((Source.byCount t).access.frame next previous) := by
  cases next with
  | some s => exact (h.indentation (hnext s rfl)).bind (.pure _)
  | none =>
    cases previous with
    | some s => exact (h.indentation (hprevious s rfl)).bind (.pure _)
    | none =>
      have hsize : t.isPlace t.size = true := Text.isPlace_iff.2 ⟨t, [], by simp, rfl⟩
      rw [Access.frame, h.size_eq]
      exact (h.lineStart hsize).bind (.pure _)

theorem insertion (h : r.Reads t) (run : List Step) {next previous : Option CallSite}
    (hnext : ∀ s ∈ next, t.isPlace s.start = true)
    (hprevious : ∀ s ∈ previous, t.isPlace s.start = true) :
    Follows (r.insertion run next previous).run
      ((Source.byCount t).access.insertion run next previous).run :=
  (h.frame hnext hprevious).lift.andThen fun _ _ => (Follows.ofExcept _).andThen fun _ _ => .pure _

end Access.Reads

namespace Operations.Faithful
variable {o : Operations m} {r : Access m} {t : Text} {steps : List Step}

theorem touched (ho : o.Faithful) (steps : List Step) (c : TextChange) :
    Follows (o.touched steps c) (plain.touched steps c) := by
  unfold Operations.touched
  dsimp only
  split
  · rename_i hfirst hlast
    exact (ho.sub (Rescan.le_of_hit List.filter_sublist hfirst hlast).1).bind (.pure _)
  · split
    · exact .pure _
    · exact .pure _

/-- A rescan is the same whatever it reads the text through. -/
theorem plan (ho : o.Faithful) (hr : r.Reads t) {c : TextChange} (hc : c.fits t = true)
    (hsites : ∀ s ∈ sitesOf steps, t.isPlace s.start = true ∧ t.isPlace s.stop = true)
    (supply : IdSupply) :
    Follows ((o.plan steps c r).run supply) ((Rescan.plan steps c t).run supply) := by
  rw [Operations.plan, hr.size_eq]
  refine .after (.lift_state (hr.fragment hc hsites) supply) fun fresh s₁ _ => ?_
  refine .after (ho.scanSteps fresh _ s₁) fun scanned s₂ _ => ?_
  refine .after (.lift_state (ho.touched steps c) s₂) fun part s₃ hpart => ?_
  obtain ⟨rfl, rfl⟩ := Prod.mk.inj hpart
  exact .after (.lift_state (ho.range (Rescan.touched_le steps c)) _) fun _ _ _ => .pure _

theorem deletion (ho : o.Faithful) (hr : r.Reads t) {s : CallSite}
    (hstart : t.isPlace s.start = true) (hstop : t.isPlace s.stop = true) :
    Follows (o.deletion r s) (plain.deletion (Source.byCount t).access s) := by
  obtain ⟨hs, hle⟩ := Source.isPlace_lineStart hstart
  obtain ⟨he, hge⟩ := Source.isPlace_lineEnd hstop
  rw [Operations.deletion, hr.size_eq]
  refine (hr.lineStart hstart).bind ((hr.lineEnd hstop).bind ?_)
  refine (hr.slice hs hstart hle).bind ((hr.slice hstop he hge).bind ?_)
  refine .ite (fun _ => .pure _) fun _ => .ite (fun _ => .pure _) fun _ => .ite (fun hpos => ?_)
    fun _ => .pure _
  exact (ho.sub hpos).bind (.pure _)

theorem removals (ho : o.Faithful) (hr : r.Reads t) {replaced : List Step}
    (hsites : ∀ x ∈ replaced, ∀ s ∈ x.site, t.isPlace s.start = true ∧ t.isPlace s.stop = true)
    (pairing : List (Option Nat)) :
    Follows (o.removals r pairing replaced)
      (plain.removals (Source.byCount t).access pairing replaced) := by
  refine .filterMapM fun p hp => ?_
  obtain ⟨⟨id, action, site⟩, slot⟩ := p
  have hsite := hsites _ (List.fst_mem_of_mem_zipIdx hp)
  refine .ite (fun _ => .pure _) fun _ => ?_
  cases site with
  | none => exact .pure _
  | some s => exact (ho.deletion hr (hsite s rfl).1 (hsite s rfl).2).bind (.pure _)

theorem siteOfSlot (ho : o.Faithful) {replaced : List Step} {slot : Option Nat}
    (h : ∀ k, slot = some k → k < replaced.length) :
    Follows (o.siteOfSlot replaced slot) (plain.siteOfSlot replaced slot) := by
  cases slot with
  | none => exact .pure _
  | some k => exact (ho.get? (h k rfl)).bind (.pure _)

theorem patching (ho : o.Faithful) {replaced : List Step} {step : Step} {slot : Option Nat}
    (hslot : ∀ k, slot = some k → k < replaced.length)
    (hpatch : ∀ x ∈ replaced, ∀ s ∈ x.site, ∀ after,
      Follows (o.patchTo s x.action after).run (plain.patchTo s x.action after).run) :
    Follows (o.patching replaced step slot).run (plain.patching replaced step slot).run := by
  cases slot with
  | none => exact .pure _
  | some k =>
    refine (ho.get? (hslot k rfl)).lift.andThen fun x hx => ?_
    obtain rfl : replaced[k]? = x := Except.ok.inj hx
    cases hold : replaced[k]? with
    | none => exact .pure _
    | some old =>
      have hpatch := hpatch old (List.mem_of_getElem? hold)
      obtain ⟨id, before, site⟩ := old
      cases site with
      | none => exact .pure _
      | some s => exact (hpatch s rfl step.action).andThen fun _ _ => .pure _

/-- Next to a run stands the call in a slot, or else the first one of some steps. -/
theorem mem_sitesOf_of_near {replaced part : List Step} (hreplaced : replaced ⊆ steps)
    (hpart : part ⊆ steps) {slot : Option Nat} {s : CallSite}
    (h : (plain.siteOfSlot replaced slot).run.or (part.findSome? (·.site)) = some s) :
    s ∈ sitesOf steps := by
  rcases Option.or_eq_some_iff.1 h with h | ⟨-, h⟩
  · rw [Rewrite.run_siteOfSlot, Option.bind_eq_some_iff] at h
    obtain ⟨k, -, h⟩ := h
    obtain ⟨x, hx, hs⟩ := List.mem_map.1 (List.mem_of_getElem? (Option.join_eq_some_iff.1 h))
    exact mem_sitesOf_iff.2 ⟨x, hreplaced hx, hs⟩
  · obtain ⟨x, hx, hs⟩ := List.exists_of_findSome?_eq_some h
    exact mem_sitesOf_iff.2 ⟨x, hpart hx, hs⟩

theorem insertion (ho : o.Faithful) (hr : r.Reads t) {replaced run : List Step}
    {next previous : Option Nat} {behind before : Option CallSite}
    (hnext : ∀ k, next = some k → k < replaced.length)
    (hprevious : ∀ k, previous = some k → k < replaced.length)
    (hplaces : ∀ s, (plain.siteOfSlot replaced next).run.or behind = some s ∨
      (plain.siteOfSlot replaced previous).run.or before = some s → t.isPlace s.start = true) :
    Follows
      (do
        r.insertion run ((← o.siteOfSlot replaced next).or behind)
          ((← o.siteOfSlot replaced previous).or before) : ExceptT WriteError m Rewrite.Part).run
      (do
        (Source.byCount t).access.insertion run ((← plain.siteOfSlot replaced next).or behind)
          ((← plain.siteOfSlot replaced previous).or before) :
        ExceptT WriteError Id Rewrite.Part).run := by
  refine (ho.siteOfSlot hnext).lift.andThen fun after h => ?_
  obtain rfl := Except.ok.inj h
  refine (ho.siteOfSlot hprevious).lift.andThen fun ahead h => ?_
  obtain rfl := Except.ok.inj h
  exact hr.insertion run (fun s hs => hplaces s (.inl hs)) fun s hs => hplaces s (.inr hs)

/-- A rewriting is the same whatever it reads the text through, if its calls are patched the same and
the places of what it writes are moved the same. -/
theorem synthesize (ho : o.Faithful) (hr : r.Reads t) {e : RoutineEdit}
    (hsites : ∀ s ∈ sitesOf steps, t.isPlace s.start = true ∧ t.isPlace s.stop = true)
    (hpatch : ∀ x ∈ steps, ∀ s ∈ x.site, ∀ after,
      Follows (o.patchTo s x.action after).run (plain.patchTo s x.action after).run)
    (hmove : ∀ w parts patched, Rewrite.synthesize steps e (.byCount t) = .ok w →
      w.edits = parts.map (·.edit) →
      (e.steps.zip (Rewrite.pairs 0 e.steps ((steps.drop e.index).take e.count))).filterMapM
        (Rewrite.patching ((steps.drop e.index).take e.count)) = .ok patched →
      Follows (o.placedSites 0 parts) (plain.placedSites 0 parts) ∧
        Follows (o.patchedSites w.edits patched) (plain.patchedSites w.edits patched)) :
    Follows (o.synthesize steps e r).run
      (plain.synthesize steps e (Source.byCount t).access).run := by
  unfold Operations.synthesize
  refine (Follows.ofExcept _).andThen fun _ hrange => ?_
  have hfits := checkRange_eq_ok_iff.1 (Result.mapError_eq_ok_iff.1 hrange)
  have hreplaced : (steps.drop e.index).take e.count ⊆ steps :=
    List.Subset.trans (List.take_subset _ _) (List.drop_subset _ _)
  refine (ho.range hfits).lift.andThen fun replaced h => ?_
  obtain rfl : (steps.drop e.index).take e.count = replaced := Except.ok.inj h
  refine (ho.range (by omega)).lift.andThen fun fore h => ?_
  obtain rfl : steps.take e.index = fore := Except.ok.inj h
  refine (ho.rest hfits).lift.andThen fun rear h => ?_
  obtain rfl : steps.drop (e.index + e.count) = rear := Except.ok.inj h
  refine (ho.pairs 0 _ _).lift.andThen fun pairing h => ?_
  obtain rfl : Rewrite.pairs 0 e.steps ((steps.drop e.index).take e.count) = pairing :=
    Except.ok.inj h
  generalize hrep : (steps.drop e.index).take e.count = replaced at *
  refine (ho.removals hr (fun x hx s hs =>
    hsites s (mem_sitesOf_iff.2 ⟨x, hreplaced hx, hs⟩)) _).lift.andThen fun deletions hdeletions => ?_
  refine (Follows.filterMapM_except fun p hp =>
    ho.patching (fun k => Rewrite.lt_of_mem_pairs hp) fun x hx =>
      hpatch x (hreplaced hx)).andThen fun patched hpatched => ?_
  have hlength := Rewrite.length_pairs 0 e.steps replaced
  have hruns : Follows (o.runs e.steps (Rewrite.pairs 0 e.steps replaced) 0 false e.steps)
      (plain.runs e.steps (Rewrite.pairs 0 e.steps replaced) 0 false e.steps) :=
    (ho.runs hlength none rfl).1.trans (congrArg pure (Rewrite.run_plain_runs hlength).symm)
  refine hruns.lift.andThen fun runs h => ?_
  obtain rfl := Except.ok.inj h
  refine (Follows.mapM_except fun x hx => ?_).andThen fun insertions hinsertions => ?_
  · have hmem : x ∈ Rewrite.runs none (e.steps.zip (Rewrite.pairs 0 e.steps replaced)) [] :=
      Rewrite.run_plain_runs hlength ▸ hx
    obtain ⟨previous, run, next⟩ := x
    obtain ⟨hprevious, hnext⟩ := Rewrite.lt_of_mem_runs hmem
    refine ho.insertion hr hnext hprevious fun s hs => (hsites s ?_).1
    rcases hs with hs | hs
    · exact mem_sitesOf_of_near hreplaced (List.drop_subset _ _) hs
    · exact mem_sitesOf_of_near hreplaced
        (fun x hx => List.take_subset _ _ (List.mem_reverse.1 hx)) hs
  subst hrep
  obtain rfl := Except.ok.inj hdeletions
  -- what has been read so far makes up the rewriting
  let parts := Rewrite.arranged
    ((plain.removals (Source.byCount t).access
      (Rewrite.pairs 0 e.steps ((steps.drop e.index).take e.count))
      ((steps.drop e.index).take e.count)).run ++ Rewrite.patchParts patched ++ insertions)
  have hsynthesize : Rewrite.synthesize steps e (.byCount t) = .ok ⟨parts.map (·.edit),
      (plain.placedSites 0 parts).run ++ (plain.patchedSites (parts.map (·.edit)) patched).run⟩ :=
    Result.run_bind_eq_ok_iff.2 ⟨_, hrange, Result.run_bind_eq_ok_iff.2 ⟨_, rfl,
      Result.run_bind_eq_ok_iff.2 ⟨_, rfl, Result.run_bind_eq_ok_iff.2 ⟨_, rfl,
      Result.run_bind_eq_ok_iff.2 ⟨_, rfl, Result.run_bind_eq_ok_iff.2 ⟨_, rfl,
      Result.run_bind_eq_ok_iff.2 ⟨patched, hpatched, Result.run_bind_eq_ok_iff.2 ⟨_, rfl,
      Result.run_bind_eq_ok_iff.2 ⟨insertions, hinsertions, Result.run_bind_eq_ok_iff.2 ⟨_, rfl,
      Result.run_bind_eq_ok_iff.2 ⟨_, rfl, rfl⟩⟩⟩⟩⟩⟩⟩⟩⟩⟩⟩
  obtain ⟨hplaced, hsited⟩ := hmove _ parts patched hsynthesize rfl
    ((Result.run_filterMapM _ _).symm.trans hpatched)
  exact hplaced.lift.andThen fun _ _ => hsited.lift.andThen fun _ _ => .pure _

end Operations.Faithful

section
variable {steps : List Step} {t : Text} {source : Source} (h : (source.access : Access Id).Reads t)
  (hsites : ∀ s ∈ sitesOf steps, t.isPlace s.start = true ∧ t.isPlace s.stop = true)
include h hsites

theorem Rewrite.synthesize_of_reads (e : RoutineEdit) :
    synthesize steps e source = synthesize steps e (.byCount t) :=
  (Operations.faithful_plain.synthesize h hsites (fun _ _ _ _ _ => rfl)
    fun _ _ _ _ _ _ => ⟨rfl, rfl⟩).run_eq

end

theorem Rewrite.synthesize_byCount {steps : List Step} {e : RoutineEdit} {t : Text} {source : Source}
    {w : Rewrite} (hsource : source = .byCount t ∨ source = .bySearch t)
    (hsites : Aligned t (sitesOf steps)) (h : synthesize steps e source = .ok w) :
    synthesize steps e (.byCount t) = .ok w := by
  rcases hsource with rfl | rfl
  · exact h
  · rw [← h, synthesize_of_reads (Source.reads_bySearch t) fun s hs =>
      (hsites.spans s hs).liesIn.isPlace]

end RoutineSync
