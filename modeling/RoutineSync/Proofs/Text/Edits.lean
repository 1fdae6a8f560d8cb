import Mathlib.Data.List.Sort
import RoutineSync.Proofs.Text.Place
/-!
Edits made at once. Where no edit reaches across a place, the text on either side of it can be
edited on its own; a place and what stands between the edits land where the mappings of places say.
-/
set_option autoImplicit false

namespace RoutineSync

namespace TextChange

def applyAll (t : Text) : List TextChange → Text
  | [] => t
  | c :: cs => applyAll (c.apply t) cs

/-- Whether each change fits the text that the ones before it lead to. -/
def fitAll (t : Text) : List TextChange → Bool
  | [] => true
  | c :: cs => c.fits t && fitAll (c.apply t) cs

theorem applyAll_append (t : Text) (cs ds : List TextChange) :
    applyAll t (cs ++ ds) = applyAll (applyAll t cs) ds := by
  induction cs generalizing t with
  | nil => rfl
  | cons c cs ih => exact ih _

theorem fitAll_append (t : Text) (cs ds : List TextChange) :
    fitAll t (cs ++ ds) = (fitAll t cs && fitAll (applyAll t cs) ds) := by
  induction cs generalizing t with
  | nil => rfl
  | cons c cs ih => rw [List.cons_append, fitAll, fitAll, ih, Bool.and_assoc]; rfl

end TextChange

namespace TextEdit

/-- Edits in order, not overlapping, that cut a text between characters; the text starts at
place `p`. -/
inductive Fit : Nat → List TextEdit → Text → Prop where
  | nil {p : Nat} {t : Text} : Fit p [] t
  | cons {p : Nat} {a b c : Text} {text : Text} {es : List TextEdit} :
      Fit (p + a.size + b.size) es c →
      Fit p (⟨⟨p + a.size, p + a.size + b.size⟩, text⟩ :: es) (a ++ b ++ c)

theorem applyFrom_cons (p : Nat) (a b c text : Text) (es : List TextEdit) :
    applyFrom p (⟨⟨p + a.size, p + a.size + b.size⟩, text⟩ :: es) (a ++ b ++ c)
      = a ++ text ++ applyFrom (p + a.size + b.size) es c := by
  have h1 : p + a.size - p = a.size := by omega
  have h2 : p + a.size + b.size - p = (a ++ b).size := by rw [Text.size_append]; omega
  simp only [applyFrom, h1, h2, Text.after_append]
  rw [List.append_assoc a b c, Text.before_append]

theorem applyFrom_nil (p : Nat) (t : Text) : applyFrom p [] t = t := rfl

theorem applyFrom_append_left {p : Nat} {es : List TextEdit} {u v : Text}
    (h : Fit (p + u.size) es v) :
    Fit p es (u ++ v) ∧ applyFrom p es (u ++ v) = u ++ applyFrom (p + u.size) es v := by
  cases h with
  | nil => exact ⟨.nil, rfl⟩
  | @cons _ a b c text es h =>
    have hs : p + u.size + a.size = p + (u ++ a).size := by rw [Text.size_append]; omega
    rw [applyFrom_cons]
    simp only [hs] at h ⊢
    rw [show u ++ (a ++ b ++ c) = u ++ a ++ b ++ c by simp only [List.append_assoc]]
    refine ⟨.cons h, ?_⟩
    rw [applyFrom_cons]
    simp only [List.append_assoc]

theorem Fit.start_le {p : Nat} {es : List TextEdit} {t : Text} (h : Fit p es t) :
    ∀ e ∈ es, p ≤ e.range.start ∧ e.range.start ≤ e.range.stop ∧ e.range.stop ≤ p + t.size := by
  induction h with
  | nil => simp
  | @cons p a b c text es h ih =>
    intro e he
    simp only [Text.size_append]
    rcases List.mem_cons.1 he with rfl | he
    · simp only
      omega
    · have := ih e he
      omega

theorem Fit.exists_cut {p : Nat} {es : List TextEdit} {t : Text} (h : Fit p es t) :
    ∀ e ∈ es, ∃ a b c, t = a ++ b ++ c ∧ e.range = ⟨p + a.size, p + a.size + b.size⟩ := by
  induction h with
  | nil => simp
  | @cons p a b c text es h ih =>
    intro e he
    rcases List.mem_cons.1 he with rfl | he
    · exact ⟨a, b, c, rfl, rfl⟩
    · obtain ⟨a', b', c', rfl, hr⟩ := ih e he
      refine ⟨a ++ b ++ a', b', c', by simp only [List.append_assoc], ?_⟩
      rw [hr]
      simp only [Text.size_append, ByteRange.mk.injEq]
      omega

theorem Fit.pairwise {p : Nat} {es : List TextEdit} {t : Text} (h : Fit p es t) :
    es.Pairwise fun e f => e.range.stop ≤ f.range.start := by
  induction h with
  | nil => exact .nil
  | cons h ih => exact .cons (fun f hf => (h.start_le f hf).1) ih

/-- Edits that each take something out of a text are told by which ones they are. -/
theorem Fit.eq_of_mem_iff {p : Nat} {es fs : List TextEdit} {t : Text} (he : Fit p es t)
    (hf : Fit p fs t) (hlt : ∀ e ∈ es, e.range.start < e.range.stop) (h : ∀ e, e ∈ es ↔ e ∈ fs) :
    es = fs := by
  let before : TextEdit → TextEdit → Prop := fun e f => e.range.start < f.range.start
  have : Std.Irrefl before := ⟨fun e => Nat.lt_irrefl _⟩
  have : Std.Antisymm before := ⟨fun e f hef hfe => absurd hef (Nat.lt_asymm hfe)⟩
  have hes : es.Pairwise before :=
    he.pairwise.imp_of_mem fun {e f} he' _ hef => Nat.lt_of_lt_of_le (hlt e he') hef
  have hfs : fs.Pairwise before :=
    hf.pairwise.imp_of_mem fun {e f} he' _ hef => Nat.lt_of_lt_of_le (hlt e ((h e).2 he')) hef
  exact hes.eq_of_mem_iff hfs h

/-- Edits that cut between characters, one after the other. -/
theorem fit_of_pairwise {p : Nat} {es : List TextEdit} {t : Text}
    (hp : ∀ e ∈ es, ∃ a b c, t = a ++ b ++ c ∧ e.range = ⟨p + a.size, p + a.size + b.size⟩)
    (ho : es.Pairwise fun e f => e.range.stop ≤ f.range.start) : Fit p es t := by
  induction es generalizing p t with
  | nil => exact .nil
  | cons e es ih =>
    obtain ⟨hfirst, hrest⟩ := List.pairwise_cons.1 ho
    obtain ⟨a, b, c, rfl, hr⟩ := hp e List.mem_cons_self
    obtain ⟨range, text⟩ := e
    subst hr
    refine .cons (ih (fun f hf => ?_) hrest)
    obtain ⟨a', b', c', ht, hf'⟩ := hp f (List.mem_cons_of_mem _ hf)
    have hle := hfirst f hf
    simp only [hf'] at hle
    rw [List.append_assoc a'] at ht
    obtain ⟨m, rfl, rfl⟩ := Text.exists_middle ht (by rw [Text.size_append]; omega)
    refine ⟨m, b', c', by rw [List.append_assoc], ?_⟩
    rw [hf']
    simp only [Text.size_append, ByteRange.mk.injEq]
    omega

/-- A place that no edit reaches across splits the edits and the text. -/
theorem Fit.split {p : Nat} {es fs : List TextEdit} {u v : Text} (h : Fit p (es ++ fs) (u ++ v))
    (he : ∀ e ∈ es, e.range.stop ≤ p + u.size) (hf : ∀ f ∈ fs, p + u.size ≤ f.range.start) :
    Fit p es u ∧ Fit (p + u.size) fs v ∧
      applyFrom p (es ++ fs) (u ++ v) = applyFrom p es u ++ applyFrom (p + u.size) fs v := by
  induction es generalizing p u with
  | nil =>
    suffices hv : Fit (p + u.size) fs v from ⟨.nil, hv, (applyFrom_append_left hv).2⟩
    rw [List.nil_append] at h
    cases fs with
    | nil => exact .nil
    | cons f fs =>
      generalize ht : u ++ v = t at h
      cases h with
      | @cons _ a b c text fs h =>
        have hle := hf _ List.mem_cons_self
        simp only at hle
        rw [List.append_assoc] at ht
        obtain ⟨m, rfl, rfl⟩ := Text.exists_middle ht (by omega)
        have hs : p + (u ++ m).size = p + u.size + m.size := by rw [Text.size_append]; omega
        rw [← List.append_assoc m b c]
        simp only [hs] at h ⊢
        exact .cons h
  | cons e es ih =>
    rw [List.cons_append] at h ⊢
    generalize ht : u ++ v = t at h
    cases h with
    | @cons _ a b c text _ h =>
      have hle := he _ List.mem_cons_self
      simp only at hle
      obtain ⟨m, rfl, rfl⟩ := Text.exists_middle ht.symm (by rw [Text.size_append]; omega)
      have hs : p + (a ++ b ++ m).size = p + a.size + b.size + m.size := by
        simp only [Text.size_append]; omega
      have he' : ∀ e ∈ es, e.range.stop ≤ p + a.size + b.size + m.size := by
        intro e h'
        have := he e (List.mem_cons_of_mem _ h')
        omega
      have hf' : ∀ f ∈ fs, p + a.size + b.size + m.size ≤ f.range.start := by
        intro f h'
        have := hf f h'
        omega
      obtain ⟨h1, h2, h3⟩ := ih h he' hf'
      rw [hs, applyFrom_cons, h3, applyFrom_cons]
      exact ⟨.cons h1, h2, by simp only [List.append_assoc]⟩

theorem Fit.size_applyFrom {p : Nat} {es : List TextEdit} {t : Text} (h : Fit p es t) :
    ((applyFrom p es t).size : Int) = t.size + totalDelta es := by
  induction h with
  | nil => simp [applyFrom_nil, totalDelta]
  | @cons p a b c text es h ih =>
    rw [applyFrom_cons]
    simp only [Text.size_append, totalDelta, delta]
    omega

theorem toChange_cut (w a b x text : Text) :
    let e : TextEdit := ⟨⟨w.size + a.size, w.size + a.size + b.size⟩, text⟩
    e.toChange.fits (w ++ a ++ b ++ x) = true ∧
      e.toChange.apply (w ++ a ++ b ++ x) = w ++ a ++ text ++ x := by
  intro e
  have hstart : e.toChange.offset = (w ++ a).size := (Text.size_append w a).symm
  have hstop : e.toChange.stop = (w ++ a ++ b).size := by
    simp only [e, toChange, TextChange.stop, Text.size_append]
    omega
  constructor
  · simp only [TextChange.fits, Bool.and_eq_true, Text.isPlace_iff, hstart, hstop]
    exact ⟨⟨w ++ a, b ++ x, List.append_assoc _ _ _, rfl⟩, w ++ a ++ b, x, rfl, rfl⟩
  · rw [TextChange.apply, hstart, hstop, Text.after_append, List.append_assoc (w ++ a) b x,
      Text.before_append]
    rfl

/-- Made one after another, the last one first, edits give the same text as at once. -/
theorem Fit.foldr_apply {p : Nat} {es : List TextEdit} {t : Text} (h : Fit p es t) (u : Text)
    (hu : u.size = p) :
    es.foldr (fun e x => e.toChange.apply x) (u ++ t) = u ++ applyFrom p es t := by
  induction h generalizing u with
  | nil => rfl
  | @cons p a b c text es h ih =>
    subst hu
    have hs : (u ++ a ++ b).size = u.size + a.size + b.size := by simp only [Text.size_append]
    have hassoc : u ++ (a ++ b ++ c) = u ++ a ++ b ++ c := by simp only [List.append_assoc]
    rw [applyFrom_cons, hassoc, List.foldr_cons, ih (u ++ a ++ b) hs]
    exact (toChange_cut u a b _ text).2.trans (by simp only [List.append_assoc])

theorem toChanges_cons (e : TextEdit) (es : List TextEdit) :
    toChanges (e :: es) = toChanges es ++ [e.toChange] := by
  simp [toChanges]

theorem applyAll_toChanges (es : List TextEdit) (t : Text) :
    TextChange.applyAll t (toChanges es) = es.foldr (fun e x => e.toChange.apply x) t := by
  induction es with
  | nil => rfl
  | cons e es ih =>
    rw [toChanges_cons, TextChange.applyAll_append, ih]
    rfl

/-- So made, each of them fits the text as it is then. -/
theorem Fit.fitAll_toChanges {p : Nat} {es : List TextEdit} {t : Text} (h : Fit p es t) (u : Text)
    (hu : u.size = p) : TextChange.fitAll (u ++ t) (toChanges es) = true := by
  induction h generalizing u with
  | nil => rfl
  | @cons p a b c text es h ih =>
    subst hu
    have hs : (u ++ a ++ b).size = u.size + a.size + b.size := by simp only [Text.size_append]
    have hassoc : u ++ (a ++ b ++ c) = u ++ a ++ b ++ c := by simp only [List.append_assoc]
    rw [toChanges_cons, TextChange.fitAll_append, hassoc, ih (u ++ a ++ b) hs, applyAll_toChanges,
      h.foldr_apply (u ++ a ++ b) hs, Bool.true_and, TextChange.fitAll, TextChange.fitAll,
      Bool.and_true]
    exact (toChange_cut u a b _ text).1

def shift (k : Nat) (e : TextEdit) : TextEdit :=
  { e with range := ⟨k + e.range.start, k + e.range.stop⟩ }

theorem Fit.shift {p : Nat} {es : List TextEdit} {t : Text} (h : Fit p es t) (k : Nat) :
    Fit (k + p) (es.map (TextEdit.shift k)) t ∧
      applyFrom (k + p) (es.map (TextEdit.shift k)) t = applyFrom p es t := by
  induction h with
  | nil => exact ⟨.nil, rfl⟩
  | @cons p a b c text es h ih =>
    have h1 : k + (p + a.size + b.size) = k + p + a.size + b.size := by omega
    have h2 : k + (p + a.size) = k + p + a.size := by omega
    rw [h1] at ih
    simp only [List.map_cons, TextEdit.shift, h1, h2]
    exact ⟨.cons ih.1, by rw [applyFrom_cons, applyFrom_cons, ih.2]⟩

end TextEdit

end RoutineSync
