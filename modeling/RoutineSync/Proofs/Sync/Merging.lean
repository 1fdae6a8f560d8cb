import RoutineSync.Proofs.Text.Landing
import RoutineSync.Sync.Rewrite
/-!
Putting the parts of a rewriting in order. Deletions may overlap and are joined then; everything else
keeps its place, so the edits that come out follow one another.
-/
set_option autoImplicit false

namespace RoutineSync

/-- One edit ends before the other one starts; two insertions are not at one place. -/
def TextEdit.Before (e f : TextEdit) : Prop :=
  e.range.stop ≤ f.range.start ∧ e.range.start < f.range.stop

theorem TextEdit.nodup_of_before {es : List TextEdit} (h : es.Pairwise Before) : es.Nodup := by
  refine h.imp fun {e f} hef heq => ?_
  simp only [Before, heq] at hef
  omega

namespace Rewrite

/-- Two deletions, or parts that do not get in each other's way. -/
def Part.Apart (p q : Part) : Prop :=
  (p.isDeletion = true ∧ q.isDeletion = true) ∨ p.edit.Before q.edit ∨ q.edit.Before p.edit

theorem Part.Apart.symm {p q : Part} (h : p.Apart q) : q.Apart p :=
  h.imp And.symm Or.symm

/-- A part behind another one, where two deletions may overlap. -/
def Part.Follows (p q : Part) : Prop :=
  p.edit.range.start ≤ q.edit.range.start ∧
    ((p.isDeletion = true ∧ q.isDeletion = true) ∨ p.edit.Before q.edit)

theorem Part.le_iff {p q : Part} : p.le q = true ↔
    p.edit.range.start < q.edit.range.start ∨
      (p.edit.range.start = q.edit.range.start ∧ p.edit.range.stop ≤ q.edit.range.stop) := by
  simp [Part.le]

theorem sorted_parts (parts : List Part) : (parts.mergeSort Part.le).Pairwise fun p q =>
    p.edit.range.start < q.edit.range.start ∨
      (p.edit.range.start = q.edit.range.start ∧ p.edit.range.stop ≤ q.edit.range.stop) := by
  have hsort := @List.pairwise_mergeSort _ Part.le
    (by simp only [Part.le_iff]; omega)
    (by intro p q; rw [Bool.or_eq_true, Part.le_iff, Part.le_iff]; omega) parts
  exact hsort.imp Part.le_iff.1

/-- Sorting leaves only deletions that overlap out of order. -/
theorem pairwise_follows {parts : List Part} (h : parts.Pairwise Part.Apart)
    (hle : ∀ p ∈ parts, p.edit.range.start ≤ p.edit.range.stop) :
    (parts.mergeSort Part.le).Pairwise Part.Follows := by
  have hperm := List.mergeSort_perm parts Part.le
  have hapart := (hperm.pairwise_iff Part.Apart.symm).2 h
  refine ((sorted_parts parts).and hapart).imp_of_mem fun {p q} hp hq ⟨hpq, ha⟩ => ?_
  have h1 := hle p (hperm.mem_iff.1 hp)
  have h2 := hle q (hperm.mem_iff.1 hq)
  refine ⟨by omega, ha.imp_right fun hb => hb.elim id fun hb => ?_⟩
  simp only [TextEdit.Before] at hb ⊢
  omega

def Part.join (p q : Part) : Part :=
  { p with edit := { p.edit with
      range := ⟨p.edit.range.start, max p.edit.range.stop q.edit.range.stop⟩ } }

theorem mergeDeletions.go_cons (last p : Part) (ps : List Part) :
    go last (p :: ps) =
      if last.isDeletion && p.isDeletion && p.edit.range.start < last.edit.range.stop then
        go (last.join p) ps
      else last :: go p ps := rfl

theorem Part.isDeletion_join (p q : Part) : (p.join q).isDeletion = p.isDeletion := rfl

/-- What holds of all parts holds of those that come out, if joining keeps it. -/
theorem mergeDeletions.forall_go {Q : Part → Prop}
    (join : ∀ p q : Part, p.isDeletion = true → q.isDeletion = true →
      p.edit.range.start ≤ q.edit.range.start → q.edit.range.start < p.edit.range.stop →
      Q p → Q q → Q (p.join q))
    {last : Part} {ps : List Part} (h : ∀ p ∈ last :: ps, Q p)
    (hs : (last :: ps).Pairwise fun p q => p.edit.range.start ≤ q.edit.range.start) :
    ∀ q ∈ go last ps, Q q := by
  induction ps generalizing last with
  | nil => simpa [go] using h
  | cons p ps ih =>
    obtain ⟨hfirst, hrest⟩ := List.pairwise_cons.1 hs
    have hq : ∀ q ∈ p :: ps, Q q := fun q hq => h q (List.mem_cons_of_mem _ hq)
    rw [go_cons]
    split
    · rename_i hmerge
      simp only [Bool.and_eq_true, decide_eq_true_eq] at hmerge
      refine ih (fun q hm => ?_) (.cons (fun q hm => ?_) (List.pairwise_cons.1 hrest).2)
      · rcases List.mem_cons.1 hm with rfl | hm
        · exact join last p hmerge.1.1 hmerge.1.2 (hfirst p List.mem_cons_self) hmerge.2
            (h last List.mem_cons_self) (hq p List.mem_cons_self)
        · exact hq q (List.mem_cons_of_mem _ hm)
      · exact hfirst q (List.mem_cons_of_mem _ hm)
    · intro q hm
      rcases List.mem_cons.1 hm with rfl | hm
      · exact h q List.mem_cons_self
      · exact ih hq hrest q hm

/-- Only deletions are joined. -/
theorem mergeDeletions.filter_go (last : Part) (ps : List Part) :
    (go last ps).filter (fun p => !p.isDeletion) = (last :: ps).filter fun p => !p.isDeletion := by
  induction ps generalizing last with
  | nil => rfl
  | cons p ps ih =>
    rw [go_cons]
    split
    · rename_i hmerge
      simp only [Bool.and_eq_true] at hmerge
      rw [ih]
      simp [Part.isDeletion_join, hmerge.1.1, hmerge.1.2]
    · simp only [List.filter_cons, ih]

/-- What is behind both of two deletions that overlap is behind what they are joined to. -/
theorem Part.Follows.join {last p q : Part} (hl : last.Follows q) (hp : p.Follows q)
    (hd : last.isDeletion = true) : (last.join p).Follows q := by
  refine ⟨hl.1, ?_⟩
  rcases hl.2 with hlast | hlast
  · exact .inl hlast
  · rcases hp.2 with hdeletion | hbefore
    · exact .inl ⟨hd, hdeletion.2⟩
    · right
      simp only [TextEdit.Before, Part.join] at hlast hbefore ⊢
      omega

/-- A part that is not joined with the next one ends before everything behind it. -/
theorem Part.Follows.before {last p q : Part} (hlp : last.Follows p) (hlq : last.Follows q)
    (hpq : p.edit.range.start ≤ q.edit.range.start) (hq : q.edit.range.start ≤ q.edit.range.stop)
    (hw : last.isDeletion = true → last.edit.range.start < last.edit.range.stop)
    (hmerge : ¬(last.isDeletion && p.isDeletion && p.edit.range.start < last.edit.range.stop) = true) :
    last.edit.Before q.edit := by
  rcases hlq.2 with hdq | hbefore
  · have hwide := hw hdq.1
    rcases hlp.2 with hdp | hbefore
    · simp only [hdp.1, hdp.2, Bool.and_self, Bool.true_and, decide_eq_true_eq] at hmerge
      simp only [TextEdit.Before]
      omega
    · simp only [TextEdit.Before] at hbefore ⊢
      omega
  · exact hbefore

theorem mergeDeletions.pairwise_go {last : Part} {ps : List Part}
    (h : (last :: ps).Pairwise Part.Follows)
    (hw : ∀ p ∈ last :: ps, p.isDeletion = true → p.edit.range.start < p.edit.range.stop)
    (hle : ∀ p ∈ last :: ps, p.edit.range.start ≤ p.edit.range.stop) :
    (go last ps).Pairwise fun p q => p.edit.Before q.edit := by
  induction ps generalizing last with
  | nil => exact List.pairwise_singleton _ _
  | cons p ps ih =>
    obtain ⟨hfirst, hrest⟩ := List.pairwise_cons.1 h
    obtain ⟨hsecond, hrest'⟩ := List.pairwise_cons.1 hrest
    have hlp := hfirst p List.mem_cons_self
    have hwl := hw last List.mem_cons_self
    rw [go_cons]
    split
    · rename_i hmerge
      simp only [Bool.and_eq_true, decide_eq_true_eq] at hmerge
      have hjoined : (last.join p).edit.range.start < (last.join p).edit.range.stop := by
        have := hwl hmerge.1.1
        simp only [Part.join]
        omega
      refine ih (.cons (fun q hq => ?_) hrest') (fun q hq hd => ?_) (fun q hq => ?_)
      · exact (hfirst q (List.mem_cons_of_mem _ hq)).join (hsecond q hq) hmerge.1.1
      · rcases List.mem_cons.1 hq with rfl | hq
        · exact hjoined
        · exact hw q (by simp [hq]) hd
      · rcases List.mem_cons.1 hq with rfl | hq
        · exact Nat.le_of_lt hjoined
        · exact hle q (by simp [hq])
    · rename_i hmerge
      have hbefore : ∀ q ∈ p :: ps, last.edit.Before q.edit := by
        intro q hq
        have hpq : p.edit.range.start ≤ q.edit.range.start := by
          rcases List.mem_cons.1 hq with rfl | hq
          · exact Nat.le_refl _
          · exact (hsecond q hq).1
        exact hlp.before (hfirst q hq) hpq (hle q (List.mem_cons_of_mem _ hq)) hwl hmerge
      refine .cons (forall_go ?_ hbefore (hrest.imp fun hpq => hpq.1))
        (ih hrest (fun q hq => hw q (List.mem_cons_of_mem _ hq))
          (fun q hq => hle q (List.mem_cons_of_mem _ hq)))
      intro p q _ _ _ _ hp hq
      simp only [TextEdit.Before, Part.join] at hp hq ⊢
      omega

/-- The parts of a rewriting of a text, before they are put in order. -/
structure Composable (t : Text) (parts : List Part) : Prop where
  cut : ∀ p ∈ parts, ∃ a b c, t = a ++ b ++ c ∧ p.edit.range = ⟨a.size, a.size + b.size⟩
  apart : parts.Pairwise Part.Apart
  wide : ∀ p ∈ parts, p.isDeletion = true → p.edit.range.start < p.edit.range.stop

theorem forall_arranged {Q : Part → Prop} {parts : List Part}
    (join : ∀ p q : Part, p.isDeletion = true → q.isDeletion = true →
      p.edit.range.start ≤ q.edit.range.start → q.edit.range.start < p.edit.range.stop →
      Q p → Q q → Q (p.join q))
    (hq : ∀ p ∈ parts, Q p) : ∀ p ∈ arranged parts, Q p := by
  have hs : (parts.mergeSort Part.le).Pairwise fun p q =>
      p.edit.range.start ≤ q.edit.range.start := (sorted_parts parts).imp fun hpq => by omega
  have hq' : ∀ p ∈ parts.mergeSort Part.le, Q p := fun p hp => hq p (List.mem_mergeSort.1 hp)
  unfold arranged mergeDeletions
  split
  · simp
  · rename_i heq
    rw [heq] at hs hq'
    exact mergeDeletions.forall_go join hq' hs

namespace Composable
variable {t : Text} {parts : List Part}

theorem start_le_stop (h : Composable t parts) :
    ∀ p ∈ parts, p.edit.range.start ≤ p.edit.range.stop := by
  intro p hp
  obtain ⟨a, b, c, -, hr⟩ := h.cut p hp
  rw [hr]
  exact Nat.le_add_right _ _

theorem filter_arranged : (arranged parts).filter (fun p => !p.isDeletion)
    = (parts.mergeSort Part.le).filter fun p => !p.isDeletion := by
  unfold arranged mergeDeletions
  split
  · rename_i heq
    rw [heq]
  · rename_i heq
    rw [heq]
    exact mergeDeletions.filter_go _ _

theorem mem_arranged {p : Part} (hp : p ∈ parts) (hd : p.isDeletion = false) :
    p ∈ arranged parts := by
  have : p ∈ (arranged parts).filter fun p => !p.isDeletion := by
    rw [filter_arranged]
    exact List.mem_filter.2 ⟨List.mem_mergeSort.2 hp, by simp [hd]⟩
  exact (List.mem_filter.1 this).1

theorem pairwise_arranged (h : Composable t parts) :
    (arranged parts).Pairwise fun p q => p.edit.Before q.edit := by
  have hs := pairwise_follows h.apart h.start_le_stop
  have hw : ∀ p ∈ parts.mergeSort Part.le, p.isDeletion = true →
      p.edit.range.start < p.edit.range.stop := fun p hp => h.wide p (List.mem_mergeSort.1 hp)
  have hle : ∀ p ∈ parts.mergeSort Part.le, p.edit.range.start ≤ p.edit.range.stop :=
    fun p hp => h.start_le_stop p (List.mem_mergeSort.1 hp)
  unfold arranged mergeDeletions
  split
  · exact .nil
  · rename_i heq
    rw [heq] at hs hw hle
    exact mergeDeletions.pairwise_go hs hw hle

theorem fit_arranged (h : Composable t parts) :
    TextEdit.Fit 0 ((arranged parts).map (·.edit)) t := by
  refine TextEdit.fit_of_pairwise ?_ ?_
  · have hcut := forall_arranged
      (Q := fun p => ∃ a b c, t = a ++ b ++ c ∧ p.edit.range = ⟨a.size, a.size + b.size⟩) ?_ h.cut
    · intro e he
      obtain ⟨p, hp, rfl⟩ := List.mem_map.1 he
      simpa using hcut p hp
    · rintro p q - - hpq - ⟨a, b, c, ht, hr⟩ ⟨a', b', c', ht', hr'⟩
      simp only [hr, hr'] at hpq
      simp only [Part.join, hr, hr']
      rcases Nat.le_total (a'.size + b'.size) (a.size + b.size) with hle | hle
      · exact ⟨a, b, c, ht, by rw [Nat.max_eq_left hle]⟩
      · have heq : a ++ b ++ c = a' ++ b' ++ c' := ht.symm.trans ht'
        have hsize : (a ++ b).size ≤ (a' ++ b').size := by simpa [Text.size_append] using hle
        obtain ⟨m, hm, rfl⟩ := Text.exists_middle heq hsize
        refine ⟨a, b ++ m, c', by rw [ht', hm]; simp, ?_⟩
        have := congrArg Text.size hm
        simp only [Text.size_append] at this ⊢
        rw [Nat.max_eq_right hle, this, Nat.add_assoc]
  · rw [List.pairwise_map]
    exact h.pairwise_arranged.imp fun hb => hb.1

end Composable

end Rewrite

end RoutineSync
