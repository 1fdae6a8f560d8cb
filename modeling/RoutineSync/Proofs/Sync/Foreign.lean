import RoutineSync.Proofs.Sync.WellFormed
/-!
What a rewriting leaves alone. It takes what the replaced calls hold and, with a call that is removed,
the blank rest of lines that hold nothing else; all other code stays, in its order.
-/
set_option autoImplicit false

namespace RoutineSync

def ByteRange.holds (d : ByteRange) (n : Nat) : Bool := d.start ≤ n && n < d.stop

theorem ByteRange.holds_iff {d : ByteRange} {n : Nat} :
    d.holds n = true ↔ d.start ≤ n ∧ n < d.stop := by
  simp [holds]

namespace Text
variable {ds es : List ByteRange}

/-- The characters that start in none of the ranges; the text starts at place `p`. -/
def outside (ds : List ByteRange) : Nat → Text → Text
  | _, [] => []
  | p, c :: r =>
    if ds.any (·.holds p) then outside ds (p + c.utf8Size) r else c :: outside ds (p + c.utf8Size) r

theorem outside_append (p : Nat) (a b : Text) :
    outside ds p (a ++ b) = outside ds p a ++ outside ds (p + a.size) b := by
  induction a generalizing p with
  | nil => rfl
  | cons c r ih =>
    simp only [List.cons_append, outside, ih, size_cons, Nat.add_assoc]
    split <;> rfl

theorem outside_sublist (p : Nat) (t : Text) : (outside ds p t).Sublist t := by
  induction t generalizing p with
  | nil => exact .slnil
  | cons c r ih =>
    rw [outside]
    split
    · exact (ih _).cons c
    · exact (ih _).cons_cons c

theorem outside_eq_nil {p : Nat} {t : Text} {d : ByteRange} (hd : d ∈ ds) (hp : d.start ≤ p)
    (hs : p + t.size ≤ d.stop) : outside ds p t = [] := by
  induction t generalizing p with
  | nil => rfl
  | cons c r ih =>
    have := c.utf8Size_pos
    rw [size_cons] at hs
    have hany : ds.any (·.holds p) = true :=
      List.any_eq_true.2 ⟨d, hd, ByteRange.holds_iff.2 ⟨hp, by omega⟩⟩
    rw [outside, if_pos hany]
    exact ih (by omega) (by omega)

theorem filter_outside_sublist {p : Nat} {t : Text} {q : Char → Bool}
    (h : ∀ (a b : Text) (c : Char), t = a ++ c :: b → q c = true →
      es.any (·.holds (p + a.size)) = true → ds.any (·.holds (p + a.size)) = true) :
    ((outside ds p t).filter q).Sublist (outside es p t) := by
  induction t generalizing p with
  | nil => exact .slnil
  | cons c r ih =>
    have hfirst := h [] r c rfl
    have ih := @ih (p + c.utf8Size) fun a b d hr hq he => by
      have := h (c :: a) b d (by rw [hr]; rfl) hq
      rw [size_cons, ← Nat.add_assoc] at this
      exact this he
    rw [size_nil, Nat.add_zero] at hfirst
    rw [outside, outside]
    by_cases hd : ds.any (·.holds p) = true
    · rw [if_pos hd]
      split
      · exact ih
      · exact ih.cons c
    · rw [if_neg hd, List.filter_cons]
      by_cases hq : q c = true
      · rw [if_pos hq, if_neg fun he => hd (hfirst hq he)]
        exact ih.cons_cons c
      · rw [if_neg hq]
        split
        · exact ih
        · exact ih.cons c

theorem outside_cons_sublist (d : ByteRange) (p : Nat) (t : Text) :
    (outside (d :: ds) p t).Sublist (outside ds p t) := by
  have h : ((outside (d :: ds) p t).filter fun _ => true).Sublist (outside ds p t) :=
    filter_outside_sublist fun _ _ _ _ _ he => by rw [List.any_cons, he, Bool.or_true]
  rwa [List.filter_eq_self.2 fun _ _ => rfl] at h

theorem mem_of_starts {u m v a b : Text} {c : Char} (h : u ++ m ++ v = a ++ c :: b)
    (hu : u.size ≤ a.size) (hm : a.size < u.size + m.size) : c ∈ m := by
  rw [List.append_assoc] at h
  obtain ⟨k, rfl, hk⟩ := exists_middle h hu
  rw [size_append] at hm
  obtain ⟨j, rfl, hj⟩ := exists_middle hk.symm (by omega)
  cases j with
  | nil =>
    rw [List.append_nil] at hm
    omega
  | cons d j =>
    rw [(List.cons.inj hj).1]
    simp

end Text

/-- Edits copy what is outside of their ranges. -/
theorem TextEdit.Fit.outside_sublist {p : Nat} {es : List TextEdit} {t : Text} (h : Fit p es t) :
    (t.outside (es.map (·.range)) p).Sublist (applyFrom p es t) := by
  induction h with
  | nil => exact Text.outside_sublist _ _
  | @cons p a b c text es h ih =>
    have hgone : b.outside (⟨p + a.size, p + a.size + b.size⟩ :: es.map (·.range)) (p + a.size)
        = [] := Text.outside_eq_nil List.mem_cons_self (Nat.le_refl _) (Nat.le_refl _)
    rw [applyFrom_cons, List.map_cons, Text.outside_append, Text.outside_append, hgone,
      List.append_nil, Text.size_append, ← Nat.add_assoc]
    have hleft : ∀ ds, (a.outside ds p).Sublist (a ++ text) := fun _ =>
      (Text.outside_sublist p a).trans (List.sublist_append_left a text)
    exact (hleft _).append ((Text.outside_cons_sublist _ _ c).trans ih)

/-- What goes with a call beside the call itself is blank. -/
theorem CallSite.Removal.isBlank {s : CallSite} {t a b : Text} {c : Char} {d : ByteRange}
    (r : s.Removal t d) (hstop : s.stop = s.start + s.text.size) (ht : t = a ++ c :: b)
    (hd : d.holds a.size = true) (hs : s.range.holds a.size = false) : Text.isBlank c = true := by
  obtain ⟨fore, left, right, rear, htext, hstart, rfl, hleft, hright, -⟩ := r
  rw [ByteRange.holds_iff] at hd
  have hs : a.size < s.start ∨ s.stop ≤ a.size := by
    rw [Bool.eq_false_iff, Ne, ByteRange.holds_iff] at hs
    simp only [CallSite.range] at hs
    omega
  simp only [Text.size_append] at hd hstart
  have hsplit := htext.symm.trans ht
  rcases hs with hs | hs
  · have hsplit : fore ++ left ++ (s.text ++ right ++ rear) = a ++ c :: b := by simpa using hsplit
    exact hleft c (Text.mem_of_starts hsplit hd.1 (by omega))
  · refine hright c (Text.mem_of_starts hsplit ?_ ?_)
    all_goals
      simp only [Text.size_append]
      omega

namespace Rewrite

/-- A byte of a replaced call, or one that goes with a removed call. -/
def Owned (t : Text) (replaced removed : List CallSite) (n : Nat) : Prop :=
  (∃ s ∈ replaced, s.range.holds n = true) ∨
    ∃ g ∈ removed, ∃ d : ByteRange, Nonempty (g.Removal t d) ∧ d.holds n = true

/-- What a rewriting does to a text in which it replaces some calls, removes some of these, and
knows of others. -/
structure Spares (r : Rewrite) (t : Text) (replaced removed others : List CallSite) : Prop where
  /-- No edit cuts into another call. -/
  others : ∀ s ∈ others, ∀ e ∈ r.edits, e.range.stop ≤ s.start ∨ s.stop ≤ e.range.start
  takes : ∀ e ∈ r.edits, ∀ n, e.range.holds n = true → Owned t replaced removed n
  /-- No edit takes other code. -/
  keeps : ((t.outside (replaced.map (·.range)) 0).filter fun c => !Text.isBlank c).Sublist
    (t.outside (r.edits.map (·.range)) 0)
  /-- Other code is left after the edits, where these can be made at once. -/
  survives : TextEdit.Fit 0 r.edits t →
    ((t.outside (replaced.map (·.range)) 0).filter fun c => !Text.isBlank c).Sublist
      (TextEdit.applyAll r.edits t)

theorem Owned.isBlank {t a b : Text} {c : Char} {replaced removed : List CallSite}
    (h : Owned t replaced removed a.size) (ht : t = a ++ c :: b)
    (hremoved : ∀ g ∈ removed, g ∈ replaced ∧ g.stop = g.start + g.text.size)
    (hout : ∀ s ∈ replaced, s.range.holds a.size = false) : Text.isBlank c = true := by
  rcases h with ⟨s, hs, h⟩ | ⟨g, hg, d, ⟨m⟩, hd⟩
  · exact absurd h (Bool.eq_false_iff.1 (hout s hs))
  · obtain ⟨hmem, hstop⟩ := hremoved g hg
    exact m.isBlank hstop ht hd (hout g hmem)

theorem Spares.of_takes {r : Rewrite} {t : Text} {replaced removed others : List CallSite}
    (hothers : ∀ s ∈ others, ∀ e ∈ r.edits, e.range.stop ≤ s.start ∨ s.stop ≤ e.range.start)
    (htakes : ∀ e ∈ r.edits, ∀ n, e.range.holds n = true → Owned t replaced removed n)
    (hremoved : ∀ g ∈ removed, g ∈ replaced ∧ g.stop = g.start + g.text.size) :
    r.Spares t replaced removed others := by
  have hkeeps : ((t.outside (replaced.map (·.range)) 0).filter fun c => !Text.isBlank c).Sublist
      (t.outside (r.edits.map (·.range)) 0) := by
    refine Text.filter_outside_sublist fun a b c ht hc he => ?_
    rw [Nat.zero_add, List.any_map, List.any_eq_true] at he ⊢
    obtain ⟨e, hm, hn⟩ := he
    by_contra hnone
    have hout : ∀ s ∈ replaced, s.range.holds a.size = false := fun s hs =>
      Bool.eq_false_iff.2 fun h => hnone ⟨s, hs, h⟩
    have hblank := (htakes e hm a.size hn).isBlank ht hremoved hout
    simp [hblank] at hc
  exact ⟨hothers, htakes, hkeeps, fun hfit => hkeeps.trans hfit.outside_sublist⟩

/-- The edits of a rewriting take what they own: its patches are inside patched calls, and joining
deletions that overlap adds no byte. -/
theorem Sketch.owned_of_arranged {t : Text} {gone replaced : List CallSite} {stay : List Staying}
    {inserted : List Part} (h : Sketch t gone stay inserted)
    (hpatched : ∀ x ∈ stay, x.edits ≠ [] → x.site ∈ replaced) :
    ∀ p ∈ arranged (sketchParts t gone stay inserted), ∀ n, p.edit.range.holds n = true →
      Owned t replaced gone n := by
  refine forall_arranged (fun p q _ _ hpq hov hp hq n hn => ?_) fun p hp n hn => ?_
  · simp only [Part.join, ByteRange.holds_iff] at hn
    by_cases hlt : n < p.edit.range.stop
    · exact hp n (ByteRange.holds_iff.2 ⟨hn.1, hlt⟩)
    · exact hq n (ByteRange.holds_iff.2 (by omega))
  · rcases mem_parts_iff.1 hp with ⟨g, hg, rfl⟩ | ⟨x, hx, e, he, rfl⟩ | hi
    · exact .inr ⟨g, hg, _, nonempty_removal (h.gone_spans g hg).liesIn, hn⟩
    · have hin := (h.within x hx e he).1
      have hn := ByteRange.holds_iff.1 hn
      refine .inl ⟨x.site, hpatched x hx (List.ne_nil_of_mem he), ByteRange.holds_iff.2 ?_⟩
      simp only [CallSite.range] at hn ⊢
      omega
    · obtain ⟨m, hr, -⟩ := h.point p hi
      rw [ByteRange.holds_iff, hr] at hn
      exact absurd hn.2 (Nat.not_lt.2 hn.1)

theorem Synthesis.spares {t : Text} {ss : List Step} {pre post : List CallSite}
    {rep : List (Option CallSite)} {r : Rewrite} (s : Synthesis t ss pre rep post r)
    (ha : Aligned t (pre ++ rep.reduceOption ++ post))
    (hin : ∀ a ∈ rep.reduceOption, ∀ e ∈ a.params, e.2.start ≤ e.2.stop ∧ e.2.stop ≤ a.text.size) :
    r.Spares t rep.reduceOption (goneSites rep (s.shares.map (·.2))) (pre ++ post) := by
  have hsketch := s.sketch ha hin
  have hpart : ∀ e ∈ r.edits, ∃ p ∈ arranged (sketchParts t (goneSites rep (s.shares.map (·.2)))
      (staying pre s.patchings post) (s.insertions.map (·.2))), p.edit = e := by
    intro e he
    rw [s.edits_eq, s.parts_eq] at he
    exact List.mem_map.1 he
  have hpatched : ∀ x ∈ staying pre s.patchings post, x.edits ≠ [] → x.site ∈ rep.reduceOption := by
    intro x hx hne
    rcases mem_staying_iff.1 hx with ⟨a, -, rfl⟩ | ⟨q, hq, rfl⟩ | ⟨a, -, rfl⟩
    · exact absurd rfl hne
    · exact s.mem_rep hq
    · exact absurd rfl hne
  refine Spares.of_takes (fun a hm e he => ?_) (fun e he n hn => ?_) fun g hg => ?_
  · -- a call outside of the edit stays without edits of its own
    have hstay : ⟨a, []⟩ ∈ staying pre s.patchings post :=
      (List.mem_append.1 hm).elim left_staying right_staying
    obtain ⟨p, hp, rfl⟩ := hpart e he
    exact (hsketch.beside_arranged hstay p hp).resolve_right List.not_mem_nil
  · obtain ⟨p, hp, rfl⟩ := hpart e he
    exact hsketch.owned_of_arranged hpatched p hp n hn
  · obtain ⟨k, hk, -⟩ := mem_goneSites_iff.1 hg
    exact ⟨List.reduceOption_mem_iff.2 (List.mem_of_getElem? hk), (hsketch.gone_spans g hg).stop_eq⟩

/-- A rewriting leaves alone what is not its own. Its edits can be made at once unless parameter
ranges of one call overlap. -/
theorem spares_of_synthesize {steps : List Step} {e : RoutineEdit} {t : Text} {source : Source}
    {r : Rewrite} (hsource : source = .byCount t ∨ source = .bySearch t)
    (hsites : Aligned t (sitesOf steps))
    (hin : ∀ s ∈ sitesOf steps, ∀ p ∈ s.params, p.2.start ≤ p.2.stop ∧ p.2.stop ≤ s.text.size)
    (h : synthesize steps e source = .ok r) :
    let replaced := (steps.drop e.index).take e.count
    r.Spares t (sitesOf replaced) (goneSites (replaced.map (·.site)) (pairs 0 e.steps replaced))
        (sitesOf (steps.take e.index) ++ sitesOf (steps.drop (e.index + e.count))) ∧
      (Marked t (sitesOf steps) → TextEdit.Fit 0 r.edits t) := by
  intro replaced
  obtain ⟨-, s, hshares⟩ := exists_synthesis (synthesize_byCount hsource hsites h)
  have hpairs : s.shares.map (·.2) = pairs 0 e.steps replaced := by
    rw [hshares]
    exact List.map_snd_zip (Nat.le_of_eq (length_pairs 0 _ _))
  have hreplaced : (replaced.map (·.site)).reduceOption = sitesOf replaced := List.filterMap_map
  have hparts := sitesOf_parts steps e.index e.count
  refine ⟨?_, fun hmarked => (s.carries (hparts ▸ hmarked)).fit⟩
  rw [← hpairs, ← hreplaced]
  refine s.spares (hparts ▸ hsites) fun a hm => hin a ?_
  rw [← hparts]
  exact List.mem_append_left _ (List.mem_append_right _ hm)

/-- The comment and the call behind it are left. -/
theorem spares_of_synthesize_mixed :
    synthesize mixedSteps mixedEdit (.byCount mixedText) = .ok mixedRewrite ∧
      mixedRewrite.Spares mixedText [waitAt 0 "10", waitAt 19 "20"] [waitAt 0 "10"]
        [waitAt 44 "30"] ∧
      "//keepauton::wait(30);".toList.Sublist (TextEdit.applyAll mixedRewrite.edits mixedText) := by
  have hreplaced : sitesOf ((mixedSteps.drop mixedEdit.index).take mixedEdit.count)
      = [waitAt 0 "10", waitAt 19 "20"] := by decide +kernel
  have hremoved : goneSites (((mixedSteps.drop mixedEdit.index).take mixedEdit.count).map (·.site))
      (pairs 0 mixedEdit.steps ((mixedSteps.drop mixedEdit.index).take mixedEdit.count))
      = [waitAt 0 "10"] := by decide +kernel
  have hothers : sitesOf (mixedSteps.take mixedEdit.index)
      ++ sitesOf (mixedSteps.drop (mixedEdit.index + mixedEdit.count)) = [waitAt 44 "30"] := by
    decide +kernel
  have hleft : (mixedText.outside ([waitAt 0 "10", waitAt 19 "20"].map (·.range)) 0).filter
      (fun c => !Text.isBlank c) = "//keepauton::wait(30);".toList := by decide +kernel
  have hmarked := anchored_mixed.marked
  obtain ⟨hspares, hfit⟩ := spares_of_synthesize (.inl rfl) hmarked.toAligned
    (fun s hs => (hmarked.ranged s hs).inside_text) synthesize_mixed
  rw [hreplaced, hremoved, hothers] at hspares
  exact ⟨synthesize_mixed, hspares, hleft ▸ hspares.survives (hfit hmarked)⟩

end Rewrite

end RoutineSync
