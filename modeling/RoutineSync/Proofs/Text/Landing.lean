import RoutineSync.Proofs.Text.Edits
/-!
Where places land when edits are made at once: a place that no edit reaches across lands behind the
edits before it, texts that edits do not cut into are carried along, and places keep their order.
-/
set_option autoImplicit false

namespace RoutineSync.TextEdit

/-- No edit reaches across the place. -/
def Clear (es : List TextEdit) (place : Nat) : Prop :=
  ∀ e ∈ es, e.range.stop ≤ place ∨ place ≤ e.range.start

def countsAtStart (place : Nat) (e : TextEdit) : Bool := e.range.stop ≤ place

/-- The edits before a place, without those that insert at it. -/
def countsAtEnd (place : Nat) (e : TextEdit) : Bool :=
  e.range.stop ≤ place && !e.isInsertionAt place

theorem countsAtStart_iff {e : TextEdit} {n : Nat} :
    countsAtStart n e = true ↔ e.range.stop ≤ n := by
  simp [countsAtStart]

theorem countsAtEnd_iff {e : TextEdit} {n : Nat} :
    countsAtEnd n e = true ↔
      e.range.stop ≤ n ∧ (e.range.start ≠ n ∨ e.range.stop ≠ n) := by
  simp only [countsAtEnd, isInsertionAt, Bool.and_eq_true, decide_eq_true_eq, Bool.not_eq_true',
    Bool.and_eq_false_iff, beq_eq_false_iff_ne]

theorem land_eq (es : List TextEdit) (counts : TextEdit → Bool) (n : Nat) :
    land es counts n = movePlace n (totalDelta (es.filter counts)) := rfl

theorem landStart_eq (es : List TextEdit) (n : Nat) : landStart es n = land es (countsAtStart n) n :=
  rfl

theorem landEnd_eq (es : List TextEdit) (n : Nat) : landEnd es n = land es (countsAtEnd n) n := rfl

/-- What counts is a beginning of the edits, and a place cuts it from the rest. -/
structure Cuts (counts : TextEdit → Bool) (es : List TextEdit) (n : Nat) : Prop where
  before : ∀ e ∈ es, counts e = true → e.range.stop ≤ n
  behind : ∀ e ∈ es, counts e = false → n ≤ e.range.start
  closed : es.Pairwise fun e f => counts f = true → counts e = true

variable {es : List TextEdit} {t u v : Text} {p m n : Nat} {counts other : TextEdit → Bool}

theorem Cuts.filter (h : Cuts counts es n) (f : TextEdit → Bool) : Cuts counts (es.filter f) n where
  before e he := h.before e (List.mem_filter.1 he).1
  behind e he := h.behind e (List.mem_filter.1 he).1
  closed := h.closed.filter f

theorem Cuts.append (h : Cuts counts es n) :
    es.filter counts ++ es.filter (fun e => !counts e) = es := by
  have hc := h.closed
  clear h
  induction hc with
  | nil => rfl
  | @cons e es he _ ih =>
    cases hc : counts e with
    | true => simp [hc, ih]
    | false =>
      have hn : es.filter counts = [] := by
        rw [List.filter_eq_nil_iff]
        intro f hf hcf
        simp [he f hf hcf] at hc
      rw [hn, List.nil_append] at ih
      simp [hc, hn, ih]

theorem Cuts.split (hc : Cuts counts es n) (h : Fit p es (u ++ v)) (hn : p + u.size = n) :
    Fit p (es.filter counts) u ∧ Fit n (es.filter fun e => !counts e) v ∧
      applyFrom p es (u ++ v)
        = applyFrom p (es.filter counts) u ++ applyFrom n (es.filter fun e => !counts e) v := by
  subst hn
  rw [← hc.append] at h
  have hs := h.split (fun e he => hc.before e (List.mem_filter.1 he).1 (List.mem_filter.1 he).2)
    (fun f hf => hc.behind f (List.mem_filter.1 hf).1 (by simpa using (List.mem_filter.1 hf).2))
  rwa [hc.append] at hs

theorem cuts_atStart (h : Fit p es t) (hc : Clear es n) : Cuts (countsAtStart n) es n where
  before e _ he := countsAtStart_iff.1 he
  behind e he hb := by
    have := hc e he
    rw [← Bool.not_eq_true, countsAtStart_iff] at hb
    omega
  closed := h.pairwise.imp_of_mem fun {e f} he hf hef hcf => by
    have := h.start_le f hf
    rw [countsAtStart_iff] at hcf ⊢
    omega

theorem cuts_atEnd (h : Fit p es t) (hc : Clear es n) : Cuts (countsAtEnd n) es n where
  before e _ he := (countsAtEnd_iff.1 he).1
  behind e he hb := by
    have := hc e he
    rw [← Bool.not_eq_true, countsAtEnd_iff] at hb
    omega
  closed := h.pairwise.imp_of_mem fun {e f} he hf hef hcf => by
    have h1 := h.start_le e he
    have h2 := h.start_le f hf
    rw [countsAtEnd_iff] at hcf ⊢
    omega

/-- A place lands behind what the edits that count make of the text before it. -/
theorem Cuts.land_eq (hc : Cuts counts es n) (h : Fit 0 es (u ++ v)) (hn : u.size = n)
    (hs : (applyAll es (u ++ v)).size ≤ maxPlace) :
    land es counts n = (applyFrom 0 (es.filter counts) u).size := by
  obtain ⟨hf, -, ha⟩ := hc.split h ((Nat.zero_add _).trans hn)
  rw [applyAll, ha, Text.size_append] at hs
  have := hf.size_applyFrom
  simp only [land, landBy, movePlace]
  omega

/-- Where more edits count at a later place, it lands later. -/
theorem Cuts.land_mono (hc : Cuts counts es m) (ho : Cuts other es n) (h : Fit 0 es t)
    (hm : t.isPlace m = true) (hn : t.isPlace n = true) (hmn : m ≤ n)
    (himp : ∀ e, counts e = true → other e = true) (hs : (applyAll es t).size ≤ maxPlace) :
    land es counts m ≤ land es other n := by
  obtain ⟨u, v, rfl, hu⟩ := Text.isPlace_iff.1 hm
  obtain ⟨u', v', ht, hu'⟩ := Text.isPlace_iff.1 hn
  obtain ⟨w, rfl, rfl⟩ := Text.exists_middle ht (by omega)
  have hf := (ho.split (ht ▸ h) ((Nat.zero_add _).trans hu')).1
  have ha := ((hc.filter other).split hf ((Nat.zero_add _).trans hu)).2.2
  have hcounts : (es.filter other).filter counts = es.filter counts := by
    rw [List.filter_filter]
    refine List.filter_congr fun e _ => ?_
    cases hce : counts e with
    | false => simp
    | true => simp [himp e hce]
  rw [hc.land_eq h hu hs, ho.land_eq (ht ▸ h) hu' (ht ▸ hs), ha, hcounts, Text.size_append]
  omega

/-- Places keep their order; what is inserted at a place goes between where its end and where its
start land. -/
theorem landEnd_le_landStart (h : Fit 0 es t) (hm : t.isPlace m = true) (hn : t.isPlace n = true)
    (hcm : Clear es m) (hcn : Clear es n) (hmn : m ≤ n) (hs : (applyAll es t).size ≤ maxPlace) :
    landEnd es m ≤ landStart es n :=
  (cuts_atEnd h hcm).land_mono (cuts_atStart h hcn) h hm hn hmn
    (fun _ he => countsAtStart_iff.2 (Nat.le_trans (countsAtEnd_iff.1 he).1 hmn)) hs

theorem landStart_mono (h : Fit 0 es t) (hm : t.isPlace m = true) (hn : t.isPlace n = true)
    (hcm : Clear es m) (hcn : Clear es n) (hmn : m ≤ n) (hs : (applyAll es t).size ≤ maxPlace) :
    landStart es m ≤ landStart es n :=
  (cuts_atStart h hcm).land_mono (cuts_atStart h hcn) h hm hn hmn
    (fun _ he => countsAtStart_iff.2 (Nat.le_trans (countsAtStart_iff.1 he) hmn)) hs

theorem landEnd_mono (h : Fit 0 es t) (hm : t.isPlace m = true) (hn : t.isPlace n = true)
    (hcm : Clear es m) (hcn : Clear es n) (hmn : m ≤ n) (hs : (applyAll es t).size ≤ maxPlace) :
    landEnd es m ≤ landEnd es n :=
  (cuts_atEnd h hcm).land_mono (cuts_atEnd h hcn) h hm hn hmn
    (fun e he => countsAtEnd_iff.2 (by rw [countsAtEnd_iff] at he; omega)) hs

/-- The edits that cut into a range. -/
def inside (start stop : Nat) (e : TextEdit) : Bool := start < e.range.stop && e.range.start < stop

/-- A range that no edit crosses an end of: an edit stands before it, behind it, or cuts into it and
stays in it. -/
def Encloses (es : List TextEdit) (start stop : Nat) : Prop :=
  ∀ e ∈ es, e.range.stop ≤ start ∨ stop ≤ e.range.start ∨
    (inside start stop e = true ∧ start ≤ e.range.start ∧ e.range.stop ≤ stop)

theorem Encloses.clear_start {a b : Nat} (h : Encloses es a b) (hab : a < b) : Clear es a :=
  fun e he => by have := h e he; simp only [inside, Bool.and_eq_true, decide_eq_true_eq] at this; omega

theorem Encloses.clear_stop {a b : Nat} (h : Encloses es a b) (hab : a < b) (hf : Fit p es t) :
    Clear es b := fun e he => by
  have hle := hf.start_le e he
  have := h e he
  simp only [inside, Bool.and_eq_true, decide_eq_true_eq] at this
  omega

/-- What stands in such a range lands in one piece, edited by what cuts into it. -/
theorem Encloses.lands {x : Text} {a b : Nat} (hb : Encloses es a b) (h : Fit 0 es t)
    (hx : t.StandsAt a x) (hab : a + x.size = b) (hne : x ≠ [])
    (hs : (applyAll es t).size ≤ maxPlace) :
    Fit a (es.filter (inside a b)) x ∧
      (applyAll es t).StandsAt (landStart es a) (applyFrom a (es.filter (inside a b)) x) ∧
      landEnd es b = landStart es a + (applyFrom a (es.filter (inside a b)) x).size := by
  obtain ⟨u, v, rfl, hu⟩ := hx
  have hlt : a < b := by have := Text.size_pos_of_ne_nil hne; omega
  have hux : (u ++ x).size = b := by rw [Text.size_append]; omega
  have hca := cuts_atStart h (hb.clear_start hlt)
  have hcb := cuts_atEnd h (hb.clear_stop hlt h)
  -- the edits up to the end of the range are those before it and those that cut into it
  obtain ⟨hux', -, hall⟩ := hcb.split h ((Nat.zero_add _).trans hux)
  obtain ⟨-, hfit, hleft⟩ := (hca.filter (countsAtEnd b)).split hux' ((Nat.zero_add _).trans hu)
  have hbefore : (es.filter (countsAtEnd b)).filter (countsAtStart a)
      = es.filter (countsAtStart a) := by
    rw [List.filter_filter]
    refine List.filter_congr fun e _ => ?_
    cases hce : countsAtStart a e with
    | false => rfl
    | true =>
      rw [countsAtStart_iff] at hce
      rw [Bool.true_and, countsAtEnd_iff]
      omega
  have hinside : (es.filter (countsAtEnd b)).filter (fun e => !countsAtStart a e)
      = es.filter (inside a b) := by
    rw [List.filter_filter]
    refine List.filter_congr fun e he => ?_
    have := hb e he
    have := h.start_le e he
    rw [Bool.eq_iff_iff, Bool.and_eq_true, countsAtEnd_iff, Bool.not_eq_true', ← Bool.not_eq_true,
      countsAtStart_iff]
    simp only [inside, Bool.and_eq_true, decide_eq_true_eq] at this ⊢
    omega
  rw [hbefore, hinside] at hleft
  rw [hinside] at hfit
  have hstart := hca.land_eq (List.append_assoc u x v ▸ h) hu (List.append_assoc u x v ▸ hs)
  have hstop := hcb.land_eq h hux hs
  rw [hleft, Text.size_append] at hstop
  refine ⟨hfit, ?_, ?_⟩
  · rw [applyAll, hall, hleft]
    exact ⟨_, _, rfl, hstart.symm⟩
  · show land es (countsAtEnd b) b = land es (countsAtStart a) a + _
    rw [hstart, hstop]

theorem filter_around {fs gs : List TextEdit} (e : TextEdit) (hf : ∀ f ∈ fs, counts f = true)
    (hg : ∀ g ∈ gs, ¬ counts g = true) : (fs ++ e :: gs).filter counts = fs ++ [e].filter counts := by
  rw [List.filter_append, List.filter_eq_self.2 hf, ← List.singleton_append, List.filter_append,
    List.filter_eq_nil_iff.2 hg, List.append_nil]

/-- The only insertion at a place fills what opens up there. -/
theorem lands_insertion {fs gs : List TextEdit} {text : Text}
    (hes : es = fs ++ ⟨⟨n, n⟩, text⟩ :: gs) (h : Fit 0 es t)
    (hf : ∀ f ∈ fs, f.range.start ≠ n ∨ f.range.stop ≠ n)
    (hg : ∀ g ∈ gs, g.range.start ≠ n ∨ g.range.stop ≠ n)
    (hs : (applyAll es t).size ≤ maxPlace) :
    (applyAll es t).StandsAt (landEnd es n) text ∧
      landEnd es n + text.size = landStart es n ∧ (landEnd es n : Int) = n + totalDelta fs := by
  have hin : (⟨⟨n, n⟩, text⟩ : TextEdit) ∈ es := by simp [hes]
  obtain ⟨u, b, v, ht, hr⟩ := h.exists_cut _ hin
  simp only [ByteRange.mk.injEq, Nat.zero_add] at hr
  have hb : b = [] := Text.size_eq_zero_iff.1 (by omega)
  subst hb
  rw [List.append_nil] at ht
  subst ht
  have hu : u.size = n := hr.1.symm
  have hp := h.pairwise
  rw [hes, List.pairwise_append, List.pairwise_cons] at hp
  have hfs : ∀ f ∈ fs, f.range.stop ≤ n := fun f hm => hp.2.2 f hm _ List.mem_cons_self
  have hgs : ∀ g ∈ gs, n ≤ g.range.start := hp.2.1.1
  have hgs' : ∀ g ∈ gs, n < g.range.stop := fun g hm => by
    have := h.start_le g (by simp [hes, hm])
    have := hgs g hm
    have := hg g hm
    omega
  -- the text splits at the insertion
  rw [hes] at h hs
  obtain ⟨hleft, -, hall⟩ := h.split (fun e he => by have := hfs e he; omega) (fun e he => by
    rcases List.mem_cons.1 he with rfl | he
    · exact Nat.le_of_eq ((Nat.zero_add _).trans hu)
    · have := hgs e he
      omega)
  have hins : applyFrom (0 + u.size) (⟨⟨n, n⟩, text⟩ :: gs) v = text ++ applyFrom n gs v := by
    have := applyFrom_cons n [] [] v text gs
    simpa [hu] using this
  rw [hins, ← List.append_assoc] at hall
  have hsize := hleft.size_applyFrom
  rw [applyAll, hall] at hs
  simp only [Text.size_append] at hs
  -- what lands before it is what the edits before it make of the text
  have hend : landEnd es n = movePlace n (totalDelta fs) := by
    have hnone : countsAtEnd n ⟨⟨n, n⟩, text⟩ = false := by simp [countsAtEnd, isInsertionAt]
    have hcounted : es.filter (countsAtEnd n) = fs := by
      rw [hes, filter_around _ (fun f hm => countsAtEnd_iff.2 ⟨hfs f hm, hf f hm⟩)
        (fun g hm => by have := hgs' g hm; rw [countsAtEnd_iff]; omega), List.filter_cons, hnone]
      simp
    show movePlace n (totalDelta (es.filter (countsAtEnd n))) = _
    rw [hcounted]
  have hstart : landStart es n = movePlace n (totalDelta fs + text.size) := by
    have hcounted : es.filter (countsAtStart n) = fs ++ [⟨⟨n, n⟩, text⟩] := by
      rw [hes, filter_around _ (fun f hm => countsAtStart_iff.2 (hfs f hm))
        (fun g hm => by have := hgs' g hm; rw [countsAtStart_iff]; omega)]
      simp [countsAtStart]
    show movePlace n (totalDelta (es.filter (countsAtStart n))) = _
    rw [hcounted, totalDelta_append]
    simp [totalDelta, delta]
  rw [hend, hstart, hes, applyAll, hall]
  simp only [movePlace]
  refine ⟨⟨applyFrom 0 fs u, _, rfl, by omega⟩, by omega, by omega⟩

end RoutineSync.TextEdit
