import RoutineSync.History.Command
import RoutineSync.Proofs.Result
/-!
Either way, a command makes a splice of the list if it fits, and keeps what the splice takes out.
-/
set_option autoImplicit false

namespace RoutineSync

namespace Splice
variable {α β : Type} {s : Splice α} {xs : List α}

def map (f : α → β) (s : Splice α) : Splice β := ⟨s.index, s.count, s.inserted.map f⟩

theorem map_run (f : α → β) (s : Splice α) (xs : List α) :
    (s.map f).run (xs.map f) = (s.run xs).map f := by
  simp [run, map, List.map_take, List.map_drop]

theorem map_removed (f : α → β) (s : Splice α) (xs : List α) :
    (s.map f).removed (xs.map f) = (s.removed xs).map f := by
  simp [removed, map, List.map_take, List.map_drop]

theorem length_removed (h : s.Fits xs) : (s.removed xs).length = s.count := by
  rw [Fits] at h
  rw [removed, List.length_take, List.length_drop]
  omega

/-- What was put in can be taken out again, which brings back the list. -/
theorem run_reverse (h : s.Fits xs) :
    (s.reverse xs).Fits (s.run xs) ∧ (s.reverse xs).run (s.run xs) = xs ∧
      (s.reverse xs).removed (s.run xs) = s.inserted := by
  have hi : (xs.take s.index).length = s.index := by simp only [Fits] at h; simp; omega
  have ht : List.take s.index (s.run xs) = xs.take s.index := by
    rw [run, List.append_assoc, List.take_left' hi]
  have hd : List.drop (s.index + s.inserted.length) (s.run xs) = xs.drop (s.index + s.count) := by
    rw [run, List.drop_left' (by simp [hi])]
  refine ⟨?_, ?_, ?_⟩
  · simp only [Fits, reverse, run, List.length_append, hi]
    omega
  · rw [run]
    simp only [reverse, ht, hd]
    rw [removed, List.append_assoc, ← List.drop_drop, List.take_append_drop, List.take_append_drop]
  · simp only [removed, reverse]
    rw [run, List.append_assoc, List.drop_left' hi, List.take_left' rfl]

theorem length_run (h : s.Fits xs) :
    (s.run xs).length + s.count = xs.length + s.inserted.length := by
  simp only [Fits] at h
  simp only [run, List.length_append, List.length_take, List.length_drop]
  omega

end Splice

theorem checkRange_eq_ok_iff {index count len : Nat} :
    checkRange index count len = .ok () ↔ index + count ≤ len := by
  unfold checkRange
  split <;> simp_all

namespace Direction
variable {d e : Direction}

theorem opposite_opposite (d : Direction) : d.opposite.opposite = d := by cases d <;> rfl

theorem eq_opposite (h : e ≠ d) : e = d.opposite := by
  cases d <;> cases e <;> first | rfl | exact absurd rfl h

theorem opposite_ne (d : Direction) : d.opposite ≠ d := by cases d <;> exact Direction.noConfusion

end Direction

theorem Operations.run_exchange {α β : Type} (s : Splice α) (xs : List α)
    (f : List α × List α → β) :
    (Operations.plain.exchange xs s >>= fun p => pure (f p)).run.run
      = (checkRange s.index s.count xs.length).map fun _ => f (s.removed xs, s.run xs) := by
  rw [Result.run_bind, exchange, Result.run_bind]
  show (checkRange s.index s.count xs.length >>= _) >>= _ = _
  cases checkRange s.index s.count xs.length <;> rfl

namespace Command
variable {α β : Type} {c e : Command α} {d : Direction} {xs ys : List α}

/-- The command as a step leaves it that has taken elements from the list. -/
def keeping (taken : List α) : Direction → Command α → Command α
  | .back, .append _ => .append taken
  | .back, .insert index _ => .insert index taken
  | .back, .replace index count _ replaced => .replace index count taken replaced
  | .forth, .replace index count elements _ => .replace index count elements taken
  | .forth, .remove index count _ => .remove index count taken
  | _, c => c

theorem step_eq (d : Direction) (xs : List α) (c : Command α) :
    c.step d xs = (checkRange (c.splice d xs.length).index (c.splice d xs.length).count xs.length).map
      fun _ => (c.keeping ((c.splice d xs.length).removed xs) d, (c.splice d xs.length).run xs) := by
  cases d with
  | forth =>
    cases c with
    | append elements =>
      have hfits : checkRange xs.length 0 xs.length = .ok () := if_pos (Nat.le_refl _)
      simp only [splice, forward, hfits, Splice.run, List.take_length, Nat.add_zero,
        List.drop_length, List.append_nil]
      rfl
    | insert index elements =>
      exact Operations.run_exchange _ xs fun p => (insert index elements, p.2)
    | replace index count elements replaced =>
      exact Operations.run_exchange _ xs fun p => (replace index count elements p.1, p.2)
    | remove index count removed =>
      exact Operations.run_exchange _ xs fun p => (remove index count p.1, p.2)
  | back =>
    cases c with
    | append elements =>
      simp only [step, Operations.step, Operations.revert, splice, inverse]
      by_cases h : elements.length ≤ xs.length
      · have hfits : checkRange (xs.length - elements.length) elements.length xs.length = .ok () :=
          if_pos (by omega)
        have htaken : (xs.drop (xs.length - elements.length)).length ≤ elements.length := by
          rw [List.length_drop]
          omega
        rw [if_pos h, hfits]
        simp only [Splice.run, Splice.removed, Except.map, List.take_of_length_le htaken,
          Nat.sub_add_cancel h, List.drop_length, List.append_nil]
        rfl
      · have hfits : checkRange (xs.length - elements.length) elements.length xs.length
            = .error ⟨0, elements.length, xs.length⟩ := by
          rw [Nat.sub_eq_zero_of_le (Nat.le_of_not_le h)]
          exact if_neg (by omega)
        rw [if_neg h, hfits]
        rfl
    | insert index elements =>
      exact Operations.run_exchange _ xs fun p => (insert index p.1, p.2)
    | replace index count elements replaced =>
      exact Operations.run_exchange _ xs fun p => (replace index count p.1 replaced, p.2)
    | remove index count removed =>
      exact Operations.run_exchange _ xs fun p => (remove index count removed, p.2)

theorem step_eq_ok_iff :
    c.step d xs = .ok (e, ys) ↔ (c.splice d xs.length).Fits xs ∧
      c.keeping ((c.splice d xs.length).removed xs) d = e ∧ (c.splice d xs.length).run xs = ys := by
  rw [step_eq, Result.map_eq_ok_iff]
  constructor
  · rintro ⟨_, hfits, heq⟩
    exact ⟨checkRange_eq_ok_iff.1 hfits, Prod.mk.inj heq⟩
  · rintro ⟨hfits, rfl, rfl⟩
    exact ⟨(), checkRange_eq_ok_iff.2 hfits, rfl⟩

theorem step_of_fits (h : (c.splice d xs.length).Fits xs) :
    c.step d xs = .ok (c.keeping ((c.splice d xs.length).removed xs) d,
      (c.splice d xs.length).run xs) :=
  step_eq_ok_iff.2 ⟨h, rfl, rfl⟩

theorem step_of_not_fits (h : ¬ (c.splice d xs.length).Fits xs) :
    c.step d xs
      = .error ⟨(c.splice d xs.length).index, (c.splice d xs.length).count, xs.length⟩ := by
  have hrange : checkRange (c.splice d xs.length).index (c.splice d xs.length).count xs.length
      = .error _ := if_neg h
  rw [step_eq, hrange]
  rfl

def map (f : α → β) : Command α → Command β
  | .append elements => .append (elements.map f)
  | .insert index elements => .insert index (elements.map f)
  | .replace index count elements replaced => .replace index count (elements.map f) (replaced.map f)
  | .remove index count removed => .remove index count (removed.map f)

theorem splice_map (f : α → β) (c : Command α) (d : Direction) (len : Nat) :
    (c.map f).splice d len = (c.splice d len).map f := by
  cases d <;> cases c <;> simp [map, splice, forward, inverse, Splice.map]

theorem keeping_map (f : α → β) (c : Command α) (d : Direction) (taken : List α) :
    (c.map f).keeping (taken.map f) d = (c.keeping taken d).map f := by
  cases d <;> cases c <;> rfl

theorem step_map (f : α → β) (c : Command α) (d : Direction) (xs : List α) :
    (c.map f).step d (xs.map f) = (c.step d xs).map fun p => (p.1.map f, p.2.map f) := by
  have hsplice := splice_map f c d xs.length
  by_cases h : (c.splice d xs.length).Fits xs
  · have hmap : ((c.map f).splice d (xs.map f).length).Fits (xs.map f) := by
      rw [List.length_map, hsplice, Splice.Fits, List.length_map]
      exact h
    rw [step_of_fits h, step_of_fits hmap, List.length_map, hsplice, Splice.map_removed, keeping_map,
      Splice.map_run]
    rfl
  · have hmap : ¬ ((c.map f).splice d (xs.map f).length).Fits (xs.map f) := by
      rw [List.length_map, hsplice, Splice.Fits, List.length_map]
      exact h
    rw [step_of_not_fits h, step_of_not_fits hmap, List.length_map, hsplice]
    rfl

/-- A command that leads one way from `xs` to `ys` and the other way back, and does not change. -/
structure Links (d : Direction) (c : Command α) (xs ys : List α) : Prop where
  there : c.step d xs = .ok (c, ys)
  back : c.step d.opposite ys = .ok (c, xs)

theorem Links.turned (h : c.Links d xs ys) : c.Links d.opposite ys xs :=
  ⟨h.back, d.opposite_opposite.symm ▸ h.there⟩

/-- Steps the one way only read how many elements the command has put in. -/
theorem splice_keeping {taken : List α} {len : Nat} (h : taken.length = (c.splice d len).count) :
    (c.keeping taken d).splice d len = c.splice d len := by
  cases d <;> cases c <;> simp_all [keeping, splice, forward, inverse]

theorem keeping_keeping (c : Command α) (d : Direction) (taken later : List α) :
    (c.keeping taken d).keeping later d = c.keeping later d := by
  cases d <;> cases c <;> rfl

/-- Steps the other way find as many elements as the command is to take out again. -/
def Balanced : Direction → Command α → Prop
  | .forth, _ => True
  | .back, .replace _ count _ replaced => replaced.length = count
  | .back, .remove _ count removed => removed.length = count
  | .back, _ => True

theorem splice_opposite (hc : c.Balanced d) (h : (c.splice d xs.length).Fits xs) :
    (c.keeping ((c.splice d xs.length).removed xs) d).splice d.opposite
      ((c.splice d xs.length).run xs).length = (c.splice d xs.length).reverse xs := by
  have hlength := Splice.length_run h
  cases d <;> cases c <;>
    simp_all [keeping, splice, forward, inverse, Balanced, Direction.opposite, Splice.reverse,
      Splice.removed, Splice.Fits]
  -- a command that was appended is taken from the end of the list again
  omega

theorem keeping_inserted (c : Command α) (d : Direction) (taken : List α) (len : Nat) :
    (c.keeping taken d).keeping (c.splice d len).inserted d.opposite = c.keeping taken d := by
  cases d <;> cases c <;> rfl

/-- Once a command has taken from the list what it needs, it is a link. -/
theorem links_of_step (hc : c.Balanced d) (h : c.step d xs = .ok (e, ys)) : e.Links d xs ys := by
  obtain ⟨hfits, rfl, rfl⟩ := step_eq_ok_iff.1 h
  obtain ⟨hback, hrun, htaken⟩ := Splice.run_reverse hfits
  have hlength := Splice.length_removed hfits
  constructor
  · have hsplice := splice_keeping hlength
    rw [step_of_fits (by rwa [hsplice]), hsplice, keeping_keeping]
  · have hsplice := splice_opposite hc hfits
    rw [step_of_fits (by rwa [hsplice]), hsplice, hrun, htaken, keeping_inserted]

end Command

end RoutineSync
