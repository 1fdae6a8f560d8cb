import RoutineSync.Proofs.Sync.Deletion
import RoutineSync.Proofs.Sync.Merging
/-!
What a rewriting does to the calls of a text: some go, some stay and are perhaps patched, and new
ones come next to those that stay. From this it follows that its edits fit together, and where the
calls that stay stand afterwards.
-/
set_option autoImplicit false

namespace RoutineSync.Rewrite

structure Staying where
  site : CallSite
  edits : List TextEdit

/-- The edits of a text carry its staying calls along: none crosses an end of one, and those that cut
into one are its own. -/
structure Carries (t : Text) (es : List TextEdit) (stay : List Staying) : Prop where
  fit : TextEdit.Fit 0 es t
  spans : ∀ x ∈ stay, x.site.SpansIn t
  encloses : ∀ x ∈ stay, TextEdit.Encloses es x.site.start x.site.stop
  inside_eq : ∀ x ∈ stay, es.filter (TextEdit.inside x.site.start x.site.stop) = x.edits

namespace Carries
variable {t : Text} {es : List TextEdit} {stay : List Staying}

theorem liesIn (h : Carries t es stay) {x : Staying} (hx : x ∈ stay) : x.site.LiesIn t :=
  (h.spans x hx).liesIn

theorem isPlace_start (h : Carries t es stay) {x : Staying} (hx : x ∈ stay) :
    t.isPlace x.site.start = true := (h.liesIn hx).isPlace.1

theorem isPlace_stop (h : Carries t es stay) {x : Staying} (hx : x ∈ stay) :
    t.isPlace x.site.stop = true := (h.liesIn hx).isPlace.2

theorem clear_start (h : Carries t es stay) {x : Staying} (hx : x ∈ stay) :
    TextEdit.Clear es x.site.start :=
  (h.encloses x hx).clear_start (h.liesIn hx).start_lt_stop

theorem clear_stop (h : Carries t es stay) {x : Staying} (hx : x ∈ stay) :
    TextEdit.Clear es x.site.stop :=
  (h.encloses x hx).clear_stop (h.liesIn hx).start_lt_stop h.fit

/-- A call that stays stands, as it is patched, where its start lands. -/
theorem lands (h : Carries t es stay) (hs : (TextEdit.applyAll es t).size ≤ maxPlace)
    {x : Staying} (hx : x ∈ stay) {site : CallSite} (hp : x.site.PatchesTo x.edits site) :
    CallSite.LiesIn ⟨TextEdit.landStart es x.site.start, TextEdit.landEnd es x.site.stop,
        site.text, site.params⟩ (TextEdit.applyAll es t) ∧
      TextEdit.landEnd es x.site.stop = TextEdit.landStart es x.site.start + site.text.size := by
  have hst := h.liesIn hx
  obtain ⟨-, h1, h2⟩ := (h.encloses x hx).lands h.fit hst.stands hst.stop_eq.symm hst.ne_nil hs
  rw [h.inside_eq x hx, hp.text_eq] at h1 h2
  exact ⟨⟨h1, h2, hp.ne_nil⟩, h2⟩

theorem landEnd_le_landStart (h : Carries t es stay) (hs : (TextEdit.applyAll es t).size ≤ maxPlace)
    {x y : Staying} (hx : x ∈ stay) (hy : y ∈ stay) (hxy : x.site.stop ≤ y.site.start) :
    TextEdit.landEnd es x.site.stop ≤ TextEdit.landStart es y.site.start :=
  TextEdit.landEnd_le_landStart h.fit (h.isPlace_stop hx) (h.isPlace_start hy) (h.clear_stop hx)
    (h.clear_start hy) hxy hs

end Carries

theorem patchesTo_nil {s : CallSite} {t : Text} (h : s.LiesIn t) : s.PatchesTo [] s where
  fit := .nil
  text_eq := rfl
  start_eq := rfl
  stop_eq := h.stop_eq
  ne_nil := h.ne_nil
  proper := id
  inside := by simp

/-- The calls of a text that go, those that stay, and the insertions of new ones. -/
structure Sketch (t : Text) (gone : List CallSite) (stay : List Staying) (inserted : List Part) :
    Prop where
  gone_spans : ∀ g ∈ gone, g.SpansIn t
  stay_spans : ∀ x ∈ stay, x.site.SpansIn t
  ordered : stay.Pairwise fun x y => x.site.stop ≤ y.site.start
  beside : ∀ x ∈ stay, ∀ g ∈ gone, x.site.stop ≤ g.start ∨ g.stop ≤ x.site.start
  within : ∀ x ∈ stay, ∀ e ∈ x.edits, (x.site.start ≤ e.range.start ∧
    e.range.start ≤ e.range.stop ∧ e.range.stop ≤ x.site.stop) ∧ e.text ≠ []
  placed : ∀ p ∈ inserted, p.placed ≠ []
  point : ∀ p ∈ inserted, ∃ n, p.edit.range = ⟨n, n⟩ ∧
    ((∃ x ∈ stay, n = x.site.start ∨ n = x.site.stop) ∨ (stay = [] ∧ n = t.size))
  apart : inserted.Pairwise fun p q => p.edit.range.start < q.edit.range.start

def sketchParts (t : Text) (gone : List CallSite) (stay : List Staying) (inserted : List Part) :
    List Part :=
  gone.map (fun g => ⟨⟨deletion (.byCount t) g, []⟩, []⟩)
    ++ stay.flatMap (fun x => x.edits.map fun e => ⟨e, []⟩) ++ inserted

/-- What goes with a call does not touch the calls that stay. -/
theorem beside_of_removal {t : Text} {g s : CallSite} {d : ByteRange} (r : g.Removal t d)
    (hs : s.SpansIn t) (hb : s.stop ≤ g.start ∨ g.stop ≤ s.start)
    (hg : g.stop = g.start + g.text.size) : d.stop ≤ s.start ∨ s.stop ≤ d.start := by
  obtain ⟨fore, left, right, rear, ht, hstart, rfl, hleft, hright, -⟩ := r
  have hstop := hs.stop_eq
  have hstands := hs.stands
  rw [ht] at hstands
  rcases hb with hb | hb
  · -- the last character of the call that stays is no blank
    right
    rw [List.append_assoc _ right, List.append_assoc (fore ++ left)] at hstands
    have hbefore := hstands.of_left (by rw [← hstart]; omega)
    have := hbefore.le_of_getLast? hs.closes fun hc => absurd (hleft _ hc) (by decide)
    exact hstop ▸ this
  · -- nor is its first one
    left
    rw [List.append_assoc _ right] at hstands
    have hsize : (fore ++ left ++ g.text).size ≤ s.start := by
      rw [Text.size_append, ← hstart]
      omega
    obtain ⟨w, hw⟩ := hs.opens
    have hfirst : s.text.head? = some 'a' := by
      rw [← hw]
      rfl
    have := (hstands.of_right hsize).le_of_head? hfirst fun hc => absurd (hright _ hc) (by decide)
    show (fore ++ left ++ g.text ++ right).size ≤ s.start
    rw [Text.size_append]
    omega

namespace Sketch
variable {t : Text} {gone : List CallSite} {stay : List Staying} {inserted : List Part}

theorem deletion_spec (h : Sketch t gone stay inserted) {g : CallSite} (hg : g ∈ gone) :
    let d := deletion (.byCount t) g
    d.start < d.stop ∧ (∃ a b c, t = a ++ b ++ c ∧ d = ⟨a.size, a.size + b.size⟩) ∧
      ∀ x ∈ stay, d.stop ≤ x.site.start ∨ x.site.stop ≤ d.start := by
  have hst := (h.gone_spans g hg).liesIn
  obtain ⟨r⟩ := nonempty_removal hst
  refine ⟨?_, ?_, fun x hx => ?_⟩
  · have := Text.size_pos_of_ne_nil hst.ne_nil
    rw [r.range_eq]
    simp only [Text.size_append] at this ⊢
    omega
  · refine ⟨r.fore, r.left ++ g.text ++ r.right, r.rear, ?_, ?_⟩
    · have := r.text_eq
      simpa [List.append_assoc] using this
    · refine r.range_eq.trans ?_
      simp [Text.size_append]
  · exact beside_of_removal r (h.stay_spans x hx) (h.beside x hx g hg) hst.stop_eq

theorem eq_or_beside (h : Sketch t gone stay inserted) {x y : Staying} (hx : x ∈ stay)
    (hy : y ∈ stay) :
    x = y ∨ x.site.stop ≤ y.site.start ∨ y.site.stop ≤ x.site.start :=
  eq_or_of_pairwise h.ordered hx hy

theorem start_lt_stop (h : Sketch t gone stay inserted) {x : Staying} (hx : x ∈ stay) :
    x.site.start < x.site.stop := (h.stay_spans x hx).liesIn.start_lt_stop

theorem point_clear (h : Sketch t gone stay inserted) {n : Nat}
    (hn : (∃ x ∈ stay, n = x.site.start ∨ n = x.site.stop) ∨ (stay = [] ∧ n = t.size)) {y : Staying}
    (hy : y ∈ stay) : n ≤ y.site.start ∨ y.site.stop ≤ n := by
  rcases hn with ⟨x, hx, hn⟩ | ⟨rfl, -⟩
  · have h1 := h.start_lt_stop hx
    have h2 := h.start_lt_stop hy
    rcases h.eq_or_beside hx hy with rfl | hall
    all_goals omega
  · simp at hy

theorem point_isPlace (h : Sketch t gone stay inserted) {n : Nat}
    (hn : (∃ x ∈ stay, n = x.site.start ∨ n = x.site.stop) ∨ (stay = [] ∧ n = t.size)) :
    ∃ u v, t = u ++ v ∧ u.size = n := by
  rcases hn with ⟨x, hx, hn⟩ | ⟨-, rfl⟩
  · obtain ⟨hstart, hstop⟩ := (h.stay_spans x hx).liesIn.isPlace
    rcases hn with rfl | rfl
    · exact Text.isPlace_iff.1 hstart
    · exact Text.isPlace_iff.1 hstop
  · exact ⟨t, [], by simp, rfl⟩

theorem mem_parts_iff {p : Part} : p ∈ sketchParts t gone stay inserted ↔
    (∃ g ∈ gone, p = ⟨⟨deletion (.byCount t) g, []⟩, []⟩) ∨
      (∃ x ∈ stay, ∃ e ∈ x.edits, p = ⟨e, []⟩) ∨ p ∈ inserted := by
  simp only [sketchParts, List.mem_append, List.mem_map, List.mem_flatMap, eq_comm, or_assoc]

/-- Only the deletions are taken for such. -/
theorem isDeletion_iff (h : Sketch t gone stay inserted) {p : Part}
    (hp : p ∈ sketchParts t gone stay inserted) :
    p.isDeletion = true ↔ ∃ g ∈ gone, p = ⟨⟨deletion (.byCount t) g, []⟩, []⟩ := by
  constructor
  · intro hd
    rcases mem_parts_iff.1 hp with hg | ⟨x, hx, e, he, rfl⟩ | hi
    · exact hg
    · have := (h.within x hx e he).2
      simp [Part.isDeletion, this] at hd
    · have := h.placed p hi
      simp [Part.isDeletion, this] at hd
  · rintro ⟨g, -, rfl⟩
    rfl

/-- A part of the rewriting does not touch the calls that stay, apart from their own patches. -/
theorem beside_arranged (h : Sketch t gone stay inserted) {x : Staying} (hx : x ∈ stay) :
    ∀ p ∈ arranged (sketchParts t gone stay inserted),
      (p.edit.range.stop ≤ x.site.start ∨ x.site.stop ≤ p.edit.range.start) ∨ p.edit ∈ x.edits := by
  have hlt := h.start_lt_stop hx
  refine forall_arranged (fun p q hp hq hpq hov hQp hQq => ?_) fun p hp => ?_
  · have hnone : ∀ p : Part, p.isDeletion = true → p.edit ∉ x.edits := by
      intro p hp hm
      have := (h.within x hx _ hm).2
      simp [Part.isDeletion, this] at hp
    have h1 := hQp.resolve_right (hnone p hp)
    have h2 := hQq.resolve_right (hnone q hq)
    left
    simp only [Part.join]
    omega
  · rcases mem_parts_iff.1 hp with ⟨g, hg, rfl⟩ | ⟨y, hy, e, he, rfl⟩ | hi
    · exact .inl ((h.deletion_spec hg).2.2 x hx)
    · have h1 := (h.within y hy e he).1
      rcases h.eq_or_beside hx hy with rfl | hall
      · exact .inr he
      · left
        show e.range.stop ≤ x.site.start ∨ x.site.stop ≤ e.range.start
        omega
    · obtain ⟨n, hr, hn⟩ := h.point p hi
      have := h.point_clear hn hx
      left
      simp only [hr]
      omega

theorem patch_spec (h : Sketch t gone stay inserted) {x : Staying} (hx : x ∈ stay) {site : CallSite}
    (hp : x.site.PatchesTo x.edits site) {e : TextEdit} (he : e ∈ x.edits) :
    x.site.start ≤ e.range.start ∧ e.range.start < e.range.stop ∧ e.range.stop ≤ x.site.stop ∧
      ∃ a b c, t = a ++ b ++ c ∧ e.range = ⟨a.size, a.size + b.size⟩ := by
  have hst := h.stay_spans x hx
  obtain ⟨h1, h2, h3⟩ := hp.inside e he
  refine ⟨h1, h2, by rw [hst.stop_eq]; exact h3, ?_⟩
  obtain ⟨a, b, c, ht, hr⟩ := hp.fit.exists_cut e he
  obtain ⟨u, v, rfl, hu⟩ := hst.stands
  refine ⟨u ++ a, b, c ++ v, by rw [ht]; simp, ?_⟩
  rw [hr, Text.size_append, hu]

theorem pairwise_patches (h : Sketch t gone stay inserted) {x : Staying} (hx : x ∈ stay)
    {site : CallSite} (hp : x.site.PatchesTo x.edits site) : x.edits.Pairwise TextEdit.Before := by
  refine hp.fit.pairwise.imp_of_mem fun {e f} he hf hef => ⟨hef, ?_⟩
  have h1 := h.patch_spec hx hp he
  have h2 := h.patch_spec hx hp hf
  omega

theorem pairwise_edits (h : Sketch t gone stay inserted)
    (hpatch : ∀ x ∈ stay, ∃ site, x.site.PatchesTo x.edits site) :
    (stay.flatMap (·.edits)).Pairwise TextEdit.Before := by
  refine List.pairwise_flatMap.2 ⟨fun x hx => ?_, ?_⟩
  · obtain ⟨site, hs⟩ := hpatch x hx
    exact h.pairwise_patches hx hs
  · refine h.ordered.imp_of_mem fun {x y} hx hy hxy e he f hf => ?_
    obtain ⟨site, hs⟩ := hpatch x hx
    obtain ⟨site', hs'⟩ := hpatch y hy
    have h1 := h.patch_spec hx hs he
    have h2 := h.patch_spec hy hs' hf
    simp only [TextEdit.Before]
    omega

theorem deletion_apart_patch (h : Sketch t gone stay inserted) {g : CallSite} (hg : g ∈ gone)
    {x : Staying} (hx : x ∈ stay) {site : CallSite} (hp : x.site.PatchesTo x.edits site)
    {e : TextEdit} (he : e ∈ x.edits) :
    TextEdit.Before ⟨deletion (.byCount t) g, []⟩ e ∨ e.Before ⟨deletion (.byCount t) g, []⟩ := by
  obtain ⟨hw, -, hb⟩ := h.deletion_spec hg
  have h1 := hb x hx
  have h2 := h.patch_spec hx hp he
  simp only [TextEdit.Before]
  omega

theorem deletion_clear (h : Sketch t gone stay inserted) {g : CallSite} (hg : g ∈ gone) {n : Nat}
    (hn : (∃ x ∈ stay, n = x.site.start ∨ n = x.site.stop) ∨ (stay = [] ∧ n = t.size)) :
    (deletion (.byCount t) g).stop ≤ n ∨ n ≤ (deletion (.byCount t) g).start := by
  obtain ⟨hw, ⟨a, b, c, ht, hd⟩, hb⟩ := h.deletion_spec hg
  rcases hn with ⟨x, hx, hn⟩ | ⟨-, rfl⟩
  · have h1 := hb x hx
    have h2 := h.start_lt_stop hx
    omega
  · have := congrArg Text.size ht
    simp only [Text.size_append] at this
    simp only [hd]
    omega

theorem composable (h : Sketch t gone stay inserted)
    (hpatch : ∀ x ∈ stay, ∃ site, x.site.PatchesTo x.edits site) :
    Composable t (sketchParts t gone stay inserted) where
  cut := by
    intro p hp
    rcases mem_parts_iff.1 hp with ⟨g, hg, rfl⟩ | ⟨x, hx, e, he, rfl⟩ | hi
    · exact (h.deletion_spec hg).2.1
    · obtain ⟨site, hs⟩ := hpatch x hx
      exact (h.patch_spec hx hs he).2.2.2
    · obtain ⟨n, hr, hn⟩ := h.point p hi
      obtain ⟨u, v, ht, hu⟩ := h.point_isPlace hn
      exact ⟨u, [], v, by simpa using ht, by simp [hr, hu]⟩
  wide := by
    intro p hp hd
    obtain ⟨g, hg, rfl⟩ := (h.isDeletion_iff hp).1 hd
    exact (h.deletion_spec hg).1
  apart := by
    rw [sketchParts, List.pairwise_append, List.pairwise_append]
    refine ⟨⟨?_, ?_, ?_⟩, ?_, ?_⟩
    · rw [List.pairwise_map]
      exact List.pairwise_of_forall fun _ _ => .inl ⟨rfl, rfl⟩
    · rw [← List.map_flatMap, List.pairwise_map]
      exact (h.pairwise_edits hpatch).imp fun hef => .inr (.inl hef)
    · simp only [List.mem_map, List.mem_flatMap]
      rintro _ ⟨g, hg, rfl⟩ _ ⟨x, hx, e, he, rfl⟩
      obtain ⟨site, hs⟩ := hpatch x hx
      exact .inr (h.deletion_apart_patch hg hx hs he)
    · refine h.apart.imp_of_mem fun {p q} hp hq hpq => .inr (.inl ?_)
      obtain ⟨n, hn, -⟩ := h.point p hp
      obtain ⟨m, hm, -⟩ := h.point q hq
      simp only [hn, hm] at hpq
      simp only [TextEdit.Before, hn, hm]
      omega
    · intro p hp q hq
      obtain ⟨n, hr, hn⟩ := h.point q hq
      simp only [List.mem_append, List.mem_map, List.mem_flatMap] at hp
      right
      simp only [TextEdit.Before, hr]
      rcases hp with ⟨g, hg, rfl⟩ | ⟨x, hx, e, he, rfl⟩
      · have h1 := (h.deletion_spec hg).1
        have h2 := h.deletion_clear hg hn
        simp only at h1 ⊢
        omega
      · obtain ⟨site, hs⟩ := hpatch x hx
        have h1 := h.patch_spec hx hs he
        have h2 := h.point_clear hn hx
        simp only
        omega

theorem carries (h : Sketch t gone stay inserted)
    (hpatch : ∀ x ∈ stay, ∃ site, x.site.PatchesTo x.edits site) :
    Carries t ((arranged (sketchParts t gone stay inserted)).map (·.edit)) stay := by
  have hc := h.composable hpatch
  refine ⟨hc.fit_arranged, h.stay_spans, fun x hx e he => ?_, fun x hx => ?_⟩
  · obtain ⟨p, hp, rfl⟩ := List.mem_map.1 he
    rcases h.beside_arranged hx p hp with hb | hm
    · omega
    · obtain ⟨site, hs⟩ := hpatch x hx
      have := h.patch_spec hx hs hm
      simp only [TextEdit.inside, Bool.and_eq_true, decide_eq_true_eq]
      omega
  · -- both lists have the same edits, in order
    obtain ⟨site, hs⟩ := hpatch x hx
    have hbefore : ((arranged (sketchParts t gone stay inserted)).map (·.edit)).Pairwise
        TextEdit.Before := List.pairwise_map.2 hc.pairwise_arranged
    have hbefore' := h.pairwise_patches hx hs
    have hmem : ∀ e, e ∈ ((arranged (sketchParts t gone stay inserted)).map (·.edit)).filter
        (TextEdit.inside x.site.start x.site.stop) ↔ e ∈ x.edits := by
      intro e
      rw [List.mem_filter, List.mem_map]
      constructor
      · rintro ⟨⟨p, hp, rfl⟩, hin⟩
        simp only [TextEdit.inside, Bool.and_eq_true, decide_eq_true_eq] at hin
        rcases h.beside_arranged hx p hp with hb | hm
        · omega
        · exact hm
      · intro he
        have h1 := h.patch_spec hx hs he
        refine ⟨⟨⟨e, []⟩, Composable.mem_arranged ?_ ?_, rfl⟩, ?_⟩
        · exact mem_parts_iff.2 (.inr (.inl ⟨x, hx, e, he, rfl⟩))
        · simp [Part.isDeletion, (h.within x hx e he).2]
        · simp only [TextEdit.inside, Bool.and_eq_true, decide_eq_true_eq]
          omega
    have hperm := (List.perm_ext_iff_of_nodup (TextEdit.nodup_of_before (hbefore.filter _))
      (TextEdit.nodup_of_before hbefore')).2 hmem
    refine hperm.eq_of_pairwise (fun e f _ _ hef hfe => ?_) (hbefore.filter _) hbefore'
    simp only [TextEdit.Before] at hef hfe
    omega

end Sketch

end RoutineSync.Rewrite
