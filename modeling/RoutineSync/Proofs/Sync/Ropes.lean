import RoutineSync.Proofs.Sync.WellFormed
/-!
Texts kept in ropes. A rope does not search for the ends of a line: it counts the newlines before a
place and goes back from a number of newlines to the place behind them. What is read of a text, and
what a rescan and a rewriting make of it, is the same either way.
-/
set_option autoImplicit false

namespace RoutineSync

/-- What a rope tells of the text that it holds. -/
structure Rope where
  size : Nat
  slice : Nat → Nat → Text
  /-- How many newlines there are. -/
  newlines : Nat
  /-- The number of the line that holds a place. -/
  lineOf : Nat → Nat
  /-- Where the line of a number starts. -/
  offsetOf : Nat → Nat

namespace Rope

/-- The rope holds a text and tells of it what ropes promise. -/
structure Holds (r : Rope) (t : Text) : Prop where
  size_eq : r.size = t.size
  slice_eq : ∀ a x b : Text, t = a ++ x ++ b → r.slice a.size (a.size + x.size) = x
  newlines_eq : r.newlines = t.count '\n'
  lineOf_eq : ∀ a b : Text, t = a ++ b → r.lineOf a.size = a.count '\n'
  offsetOf_zero : r.offsetOf 0 = 0
  offsetOf_succ : ∀ a b : Text, t = a ++ '\n' :: b → r.offsetOf (a.count '\n' + 1) = a.size + 1

/-- A text read through a rope. -/
def access (r : Rope) : Source where
  size := r.size
  slice := r.slice
  lineStart n := r.offsetOf (r.lineOf n)
  lineEnd n := if r.lineOf n < r.newlines then r.offsetOf (r.lineOf n + 1) - 1 else r.size

section
variable {r : Rope} {t : Text}

theorem Holds.slice_eq_slice (h : r.Holds t) {i j : Nat} (hi : t.isPlace i = true)
    (hj : t.isPlace j = true) (hij : i ≤ j) : r.slice i j = t.slice i j := by
  obtain ⟨a, b, rfl, rfl⟩ := Text.isPlace_iff.1 hi
  obtain ⟨c, d, heq, rfl⟩ := Text.isPlace_iff.1 hj
  obtain ⟨x, rfl, rfl⟩ := Text.exists_middle heq hij
  rw [Text.size_append, h.slice_eq a x d (List.append_assoc _ _ _).symm, ← List.append_assoc,
    Text.slice_append]

theorem Holds.lineStart_eq (h : r.Holds t) {n : Nat} (hn : t.isPlace n = true) :
    r.access.lineStart n = (Source.bySearch t).lineStart n := by
  rw [Source.lineStart_bySearch hn]
  obtain ⟨u, v, rfl, rfl⟩ := Text.isPlace_iff.1 hn
  obtain ⟨a, b, rfl, hb, ha⟩ := Text.exists_lastLine u
  rw [Source.lineStart_byCount v hb ha]
  simp only [access, h.lineOf_eq (a ++ b) v rfl, List.count_append, List.count_eq_zero.2 hb]
  rcases ha with rfl | ⟨c, rfl⟩
  · exact h.offsetOf_zero
  · have := h.offsetOf_succ c (b ++ v) (by simp)
    simpa [Text.utf8Size_newline] using this

theorem Holds.lineEnd_eq (h : r.Holds t) {n : Nat} (hn : t.isPlace n = true) :
    r.access.lineEnd n = (Source.bySearch t).lineEnd n := by
  rw [Source.lineEnd_bySearch hn]
  obtain ⟨u, v, rfl, rfl⟩ := Text.isPlace_iff.1 hn
  obtain ⟨a, b, rfl, ha, hb⟩ := Text.exists_firstLine v
  have hcount : (u ++ a).count '\n' = u.count '\n' := by
    rw [List.count_append, List.count_eq_zero.2 ha, Nat.add_zero]
  rw [Source.lineEnd_byCount u ha hb]
  simp only [access, h.lineOf_eq u (a ++ b) rfl, h.newlines_eq, ← List.append_assoc,
    @List.count_append _ _ _ (u ++ a) b, hcount]
  rcases hb with rfl | ⟨c, rfl⟩
  · rw [List.count_nil, Nat.add_zero, if_neg (Nat.lt_irrefl _), h.size_eq]
    simp
  · have := h.offsetOf_succ (u ++ a) c (List.append_assoc _ _ _).symm
    rw [hcount] at this
    rw [if_pos (by simp), this, Nat.add_sub_cancel]

theorem Holds.reads (h : r.Holds t) : (r.access.access : Access Id).Reads t where
  size_eq := h.size_eq
  slice := h.slice_eq_slice
  lineStart hn := (h.lineStart_eq hn).trans (Source.lineStart_bySearch hn)
  lineEnd hn := (h.lineEnd_eq hn).trans (Source.lineEnd_bySearch hn)

end

def ofText (t : Text) : Rope where
  size := t.size
  slice := t.slice
  newlines := t.newlinesBefore t.size
  lineOf := t.newlinesBefore
  offsetOf := t.lineOffset

open Rewrite (mixedText mixedSteps mixedEdit anchored_mixed)

/-- A newline ends the line before it, and the last line may be empty. -/
example : let r := (ofText "a\n\nb\n".toList).access
    [0, 1, 2, 3, 4, 5].map r.lineStart = [0, 0, 2, 3, 3, 5] ∧
      [0, 1, 2, 3, 4, 5].map r.lineEnd = [1, 1, 2, 4, 4, 5] := by
  decide

end Rope

end RoutineSync
