import RoutineSync.Proofs.Sync.Anchored
import RoutineSync.Proofs.Sync.Patch
import RoutineSync.Sync.Rewrite
/-!
What goes with a call that is deleted: at most the blank rest of its line.
-/
set_option autoImplicit false

namespace RoutineSync

namespace Text

theorem utf8Size_newline : Char.utf8Size '\n' = 1 := rfl

/-- A text is whole lines and the beginning of a last one. -/
theorem exists_lastLine (u : Text) :
    ∃ a b : Text, u = a ++ b ∧ '\n' ∉ b ∧ (a = [] ∨ ∃ c : Text, a = c ++ ['\n']) := by
  induction u with
  | nil => exact ⟨[], [], rfl, by simp, .inl rfl⟩
  | cons d u ih =>
    obtain ⟨a, b, rfl, hb, rfl | ⟨c, rfl⟩⟩ := ih
    · by_cases hd : d = '\n'
      · exact ⟨['\n'], b, by simp [hd], hb, .inr ⟨[], rfl⟩⟩
      · exact ⟨[], d :: b, rfl, by simp [Ne.symm hd, hb], .inl rfl⟩
    · exact ⟨d :: (c ++ ['\n']), b, rfl, hb, .inr ⟨d :: c, rfl⟩⟩

/-- A text is the rest of a line and the lines behind it. -/
theorem exists_firstLine (v : Text) :
    ∃ a b : Text, v = a ++ b ∧ '\n' ∉ a ∧ (b = [] ∨ ∃ c : Text, b = '\n' :: c) := by
  induction v with
  | nil => exact ⟨[], [], rfl, by simp, .inl rfl⟩
  | cons d v ih =>
    by_cases hd : d = '\n'
    · exact ⟨[], d :: v, rfl, by simp, .inr ⟨v, by rw [hd]⟩⟩
    · obtain ⟨a, b, rfl, ha, hb⟩ := ih
      exact ⟨d :: a, b, rfl, by simp [Ne.symm hd, ha], hb⟩

theorem lineOffset_of_newline (c v : Text) :
    lineOffset (c ++ '\n' :: v) (c.count '\n' + 1) = size (c ++ ['\n']) := by
  induction c with
  | nil => cases v <;> rfl
  | cons d c ih =>
    rw [List.cons_append, List.count_cons]
    by_cases hd : d = '\n'
    · subst hd
      simpa [lineOffset] using ih
    · simpa [lineOffset, hd] using ih

/-- The line that holds a place starts behind the newline before it. -/
theorem lineOffset_count {a b : Text} (v : Text) (hb : '\n' ∉ b)
    (ha : a = [] ∨ ∃ c : Text, a = c ++ ['\n']) :
    lineOffset (a ++ b ++ v) ((a ++ b).count '\n') = size a := by
  rw [List.count_append, List.count_eq_zero.2 hb, Nat.add_zero]
  rcases ha with rfl | ⟨c, rfl⟩
  · rw [List.nil_append, List.count_nil]
    cases b ++ v <;> rfl
  · have := lineOffset_of_newline c (b ++ v)
    simpa using this

end Text

namespace Source

theorem lineStart_byCount {a b : Text} (v : Text) (hb : '\n' ∉ b)
    (ha : a = [] ∨ ∃ c : Text, a = c ++ ['\n']) :
    (byCount (a ++ b ++ v)).lineStart (a ++ b).size = a.size := by
  simp only [byCount, Text.newlinesBefore_append]
  exact Text.lineOffset_count v hb ha

theorem lineEnd_byCount (u : Text) {a b : Text} (ha : '\n' ∉ a)
    (hb : b = [] ∨ ∃ c : Text, b = '\n' :: c) :
    (byCount (u ++ (a ++ b))).lineEnd u.size = (u ++ a).size := by
  have htotal := Text.newlinesBefore_append (u ++ (a ++ b)) []
  rw [List.append_nil] at htotal
  simp only [byCount, Text.newlinesBefore_append, htotal, List.count_append,
    List.count_eq_zero.2 ha]
  rcases hb with rfl | ⟨c, rfl⟩
  · simp
  · have := Text.lineOffset_of_newline (u ++ a) c
    rw [List.count_append, List.count_eq_zero.2 ha, Nat.add_zero] at this
    rw [if_pos (by simp), ← List.append_assoc, this, Text.size_append (u ++ a)]
    rfl

end Source

/-- What goes with a call: blanks on either side, and these only where the call's lines hold nothing
else. With the lines goes the newline that ends the last one, or, where the text ends with it, the
newline before the first one. -/
structure CallSite.Removal (s : CallSite) (t : Text) (d : ByteRange) where
  fore : Text
  left : Text
  right : Text
  rear : Text
  text_eq : t = fore ++ left ++ s.text ++ right ++ rear
  start_eq : s.start = (fore ++ left).size
  range_eq : d = ⟨fore.size, (fore ++ left ++ s.text ++ right).size⟩
  blank_left : ∀ c ∈ left, Text.isBlank c = true
  blank_right : ∀ c ∈ right, Text.isBlank c = true
  lines : (left = [] ∧ right = []) ∨
    ((fore = [] ∨ ∃ x : Text, fore = x ++ ['\n']) ∧ '\n' ∉ left ∧
      ∃ x : Text, right = x ++ ['\n'] ∧ '\n' ∉ x) ∨
    (rear = [] ∧ '\n' ∉ right ∧
      ((fore = [] ∧ '\n' ∉ left) ∨ ∃ x : Text, left = '\n' :: x ∧ '\n' ∉ x))

theorem Rewrite.deletion_eq (source : Source) (s : CallSite) :
    deletion source s =
      let lineStart := source.lineStart s.start
      let lineEnd := source.lineEnd s.stop
      let left := source.slice lineStart s.start
      let right := source.slice s.stop lineEnd
      if !left.all Text.isBlank || !right.all Text.isBlank then s.range
      else if lineEnd < source.size then ⟨lineStart, lineEnd + 1⟩
      else if 0 < lineStart then ⟨lineStart - 1, lineEnd⟩
      else ⟨lineStart, lineEnd⟩ := rfl

theorem Rewrite.nonempty_removal {t : Text} {s : CallSite} (h : s.LiesIn t) :
    Nonempty (s.Removal t (deletion (.byCount t) s)) := by
  obtain ⟨u, v, rfl, hu⟩ := h.stands
  have hstop : s.stop = (u ++ s.text).size := by rw [Text.size_append, h.stop_eq, hu]
  obtain ⟨a, l, rfl, hl, ha⟩ := Text.exists_lastLine u
  obtain ⟨r, b, rfl, hr, hb⟩ := Text.exists_firstLine v
  have hstart := Source.lineStart_byCount (s.text ++ (r ++ b)) hl ha
  have hend := Source.lineEnd_byCount (a ++ l ++ s.text) hr hb
  rw [← List.append_assoc] at hstart
  have hslice : (a ++ l ++ s.text ++ (r ++ b)).slice a.size (a ++ l).size = l := by
    have := Text.slice_append a l (s.text ++ (r ++ b))
    simpa [List.append_assoc] using this
  have hslice' : (a ++ l ++ s.text ++ (r ++ b)).slice (a ++ l ++ s.text).size
      (a ++ l ++ s.text ++ r).size = r := by
    have := Text.slice_append (a ++ l ++ s.text) r b
    simpa [List.append_assoc, Nat.add_assoc] using this
  have hread : (Source.byCount (a ++ l ++ s.text ++ (r ++ b))).slice
      = (a ++ l ++ s.text ++ (r ++ b)).slice := rfl
  have hsize : (Source.byCount (a ++ l ++ s.text ++ (r ++ b))).size
      = (a ++ l ++ s.text ++ (r ++ b)).size := rfl
  rw [deletion_eq]
  simp only [hstop, ← hu, hstart, hend, hread, hsize, hslice, hslice']
  split
  · -- something else is on the line
    exact ⟨{
      fore := a ++ l, left := [], right := [], rear := r ++ b
      text_eq := by simp
      start_eq := by simp [hu]
      range_eq := by simp [CallSite.range, hu, hstop]
      blank_left := by simp
      blank_right := by simp
      lines := .inl ⟨rfl, rfl⟩ }⟩
  · rename_i hblank
    simp only [Bool.or_eq_true, Bool.not_eq_true', not_or, Bool.not_eq_false, List.all_eq_true]
      at hblank
    rcases hb with rfl | ⟨b, rfl⟩
    · rw [if_neg (by simp [Text.size_append])]
      rcases ha with rfl | ⟨a, rfl⟩
      · exact ⟨{
          fore := [], left := l, right := r, rear := []
          text_eq := by simp
          start_eq := by simp [← hu]
          range_eq := by simp
          blank_left := hblank.1
          blank_right := hblank.2
          lines := .inr (.inr ⟨rfl, hr, .inl ⟨rfl, hl⟩⟩) }⟩
      · exact ⟨{
          fore := a, left := '\n' :: l, right := r, rear := []
          text_eq := by simp
          start_eq := by simp [← hu]
          range_eq := by
            rw [if_pos (by simp [Text.size_append, Text.utf8Size_newline])]
            simp [Text.size_append, Text.utf8Size_newline]
          blank_left := by simpa using ⟨by decide, hblank.1⟩
          blank_right := hblank.2
          lines := .inr (.inr ⟨rfl, hr, .inr ⟨l, rfl, hl⟩⟩) }⟩
    · exact ⟨{
        fore := a, left := l, right := r ++ ['\n'], rear := b
        text_eq := by simp
        start_eq := by simp [← hu]
        range_eq := by
          rw [if_pos (by simp only [Text.size_append, Text.size_cons, Text.utf8Size_newline]; omega)]
          simp [Text.size_append, Text.utf8Size_newline, Nat.add_assoc]
        blank_left := hblank.1
        blank_right := by
          intro c hc
          rcases List.mem_append.1 hc with hc | hc
          · exact hblank.2 c hc
          · rw [List.mem_singleton.1 hc]
            decide
        lines := .inr (.inl ⟨ha, hl, r, rfl, hr⟩) }⟩

end RoutineSync
