import Mathlib.Data.List.Forall2
import RoutineSync.Proofs.History.Uses
/-!
Journals that cannot be told apart from outside. Undoing takes what a command put in from the list
again and redoing takes what it puts aside, so of these a command on a stack keeps copies that nobody
reads, and that writes in place leave behind. A step through the history and the step back give a
journal that differs in such copies alone.
-/
set_option autoImplicit false

namespace RoutineSync

namespace Command
variable {α : Type} {c e : Command α} {d : Direction} {xs ys : List α}

/-- Two commands that step alike one way, whatever list they step on. -/
structure StepsLike (d : Direction) (c e : Command α) : Prop where
  splice_eq : ∀ len, c.splice d len = e.splice d len
  step_eq : ∀ xs, c.step d xs = e.step d xs

theorem StepsLike.refl (d : Direction) (c : Command α) : c.StepsLike d c :=
  ⟨fun _ => rfl, fun _ => rfl⟩

/-- To step again the same way, a command only has to know how many elements it put in. -/
theorem stepsLike_of_step (h : c.step d xs = .ok (e, ys)) : e.StepsLike d c := by
  obtain ⟨hfits, rfl, -⟩ := step_eq_ok_iff.1 h
  have hsplice : ∀ len, (c.keeping ((c.splice d xs.length).removed xs) d).splice d len
      = c.splice d len := fun len => by
    refine splice_keeping ?_
    rw [Splice.length_removed hfits]
    cases d <;> cases c <;> rfl
  exact ⟨hsplice, fun zs => by simp only [step_eq, hsplice, keeping_keeping]⟩

theorem Links.balanced (h : c.Links d xs ys) : c.Balanced .back := by
  obtain ⟨zs, us, hforth⟩ : ∃ zs us, c.step .forth zs = .ok (c, us) := by
    cases d with
    | back => exact ⟨_, _, h.back⟩
    | forth => exact ⟨_, _, h.there⟩
  obtain ⟨hfits, hkeeping, -⟩ := step_eq_ok_iff.1 hforth
  have hlength := Splice.length_removed hfits
  rw [← hkeeping]
  cases c with
  | append | insert => trivial
  | replace | remove => exact hlength

theorem balanced_map_iff {β : Type} {f : α → β} : (c.map f).Balanced d ↔ c.Balanced d := by
  cases d <;> cases c <;> simp [map, Balanced]

end Command

namespace Journal
variable {α β : Type} {j k : Journal α} {d : Direction}

/-- The same list, and on the stacks commands that step alike. -/
structure Alike (j k : Journal α) : Prop where
  items_eq : j.items = k.items
  ahead : ∀ d, List.Forall₂ (Command.StepsLike d) (j.ahead d) (k.ahead d)

/-- Outcomes that tell the same and leave journals that are alike. -/
inductive AlikeResults :
    Except RangeError (β × Journal α) → Except RangeError (β × Journal α) → Prop where
  | ok {b : β} {j k : Journal α} : j.Alike k → AlikeResults (.ok (b, j)) (.ok (b, k))
  | error {e : RangeError} : AlikeResults (.error e) (.error e)

theorem AlikeResults.told_eq {x y : Except RangeError (β × Journal α)} (h : AlikeResults x y) :
    x.map (·.1) = y.map (·.1) := by
  cases h <;> rfl

theorem AlikeResults.afterCommand {x y : Except RangeError (Command α × Journal α)}
    (h : AlikeResults x y) (hj : j.Alike k) : (j.afterCommand x).2.Alike (k.afterCommand y).2 := by
  cases h with
  | ok h => exact h
  | error => exact hj

theorem AlikeResults.afterStep {x y : Except RangeError (Option (Splice α) × Journal α)}
    (h : AlikeResults x y) (hj : j.Alike k) : (j.afterStep x).2.Alike (k.afterStep y).2 := by
  cases h with
  | @ok b _ _ h => cases b <;> exact h
  | error => exact hj

namespace Alike

theorem execute (h : j.Alike k) (c : Command α) : AlikeResults (j.execute c) (k.execute c) := by
  rw [execute_eq, execute_eq, h.items_eq]
  cases c.step .forth k.items with
  | error e => exact .error
  | ok p =>
    refine .ok ⟨rfl, fun d => ?_⟩
    cases d with
    | back => exact .cons (.refl _ _) (h.ahead .back)
    | forth => exact .nil

/-- The next commands are alike, or there are none. -/
theorem head? (h : j.Alike k) (d : Direction) :
    ((j.ahead d).head? = none ∧ (k.ahead d).head? = none) ∨
      ∃ c e, (j.ahead d).head? = some c ∧ (k.ahead d).head? = some e ∧ c.StepsLike d e := by
  have hahead := h.ahead d
  generalize j.ahead d = cs at hahead ⊢
  generalize k.ahead d = es at hahead ⊢
  cases hahead with
  | nil => exact .inl ⟨rfl, rfl⟩
  | cons hlike _ => exact .inr ⟨_, _, rfl, rfl, hlike⟩

theorem passed (h : j.Alike k) (d : Direction) (c : Command α) (items : List α) :
    (j.passed c items d).Alike (k.passed c items d) := by
  refine ⟨by rw [items_passed, items_passed], fun e => ?_⟩
  rw [ahead_passed, ahead_passed]
  split
  · have hahead := h.ahead e
    generalize j.ahead e = cs at hahead ⊢
    generalize k.ahead e = es at hahead ⊢
    cases hahead with
    | nil => exact .nil
    | cons _ hrest => exact hrest
  · exact .cons (.refl _ _) (h.ahead e)

theorem walk (h : j.Alike k) (d : Direction) : AlikeResults (j.walk d) (k.walk d) := by
  obtain ⟨hj, hk⟩ | ⟨c, e, hj, hk, hlike⟩ := h.head? d
  · rw [walk_of_none hj, walk_of_none hk]
    exact .ok h
  · rw [walk_of_some hj, walk_of_some hk, hlike.step_eq, h.items_eq, hlike.splice_eq]
    cases e.step d k.items with
    | error err => exact .error
    | ok p => exact .ok (h.passed d p.1 p.2)

theorem peek_eq (h : j.Alike k) (d : Direction) : j.peek d = k.peek d := by
  obtain ⟨hj, hk⟩ | ⟨c, e, hj, hk, hlike⟩ := h.head? d
  · rw [peek, peek, hj, hk]
    rfl
  · rw [peek, peek, hj, hk, h.items_eq]
    exact congrArg some (hlike.splice_eq _)

theorem isEmpty_eq (h : j.Alike k) (d : Direction) : (j.ahead d).isEmpty = (k.ahead d).isEmpty := by
  have hahead := h.ahead d
  generalize j.ahead d = cs at hahead ⊢
  generalize k.ahead d = es at hahead ⊢
  cases hahead <;> rfl

end Alike

inductive Answer (α : Type) where
  | command (r : Except RangeError (Command α))
  | step (r : Except RangeError (Option (Splice α)))
  | written

def answer (j : Journal α) : Use α → Answer α
  | .ask (.append elements) => .command ((j.append elements).map (·.1))
  | .ask (.insert index elements) => .command ((j.insert index elements).map (·.1))
  | .ask (.replace index count elements) => .command ((j.replace index count elements).map (·.1))
  | .ask (.remove index count) => .command ((j.remove index count).map (·.1))
  | .ask .undo => .step (j.undo.map (·.1))
  | .ask .redo => .step (j.redo.map (·.1))
  | .write _ => .written

structure View (α : Type) where
  items : List α
  canUndo : Bool
  canRedo : Bool
  peekUndo : Option (Splice α)
  peekRedo : Option (Splice α)

def view (j : Journal α) : View α := ⟨j.items, j.canUndo, j.canRedo, j.peekUndo, j.peekRedo⟩

/-- What uses one after another tell, and what can be read after each of them. -/
def answers (j : Journal α) : List (Use α) → List (Answer α × View α)
  | [] => []
  | u :: us => (j.answer u, (j.next u).view) :: (j.next u).answers us

/-- Nothing that is read, now or after whatever uses, tells one journal from the other. -/
def Indistinguishable (j k : Journal α) : Prop :=
  j.view = k.view ∧ ∀ us, j.answers us = k.answers us

namespace Alike

theorem view_eq (h : j.Alike k) : j.view = k.view := by
  simp only [view, View.mk.injEq]
  exact ⟨h.items_eq, congrArg not (h.isEmpty_eq .back), congrArg not (h.isEmpty_eq .forth),
    h.peek_eq .back, h.peek_eq .forth⟩

theorem answer_eq (h : j.Alike k) (u : Use α) : j.answer u = k.answer u := by
  cases u with
  | write f => rfl
  | ask q =>
    cases q with
    | append | insert | replace | remove => exact congrArg Answer.command (h.execute _).told_eq
    | undo => exact congrArg Answer.step (h.walk .back).told_eq
    | redo => exact congrArg Answer.step (h.walk .forth).told_eq

theorem next (h : j.Alike k) (u : Use α) : (j.next u).Alike (k.next u) := by
  cases u with
  | write f => exact ⟨by simp only [Journal.next, mapItems, h.items_eq], fun d => by cases d <;> exact h.ahead _⟩
  | ask q =>
    cases q with
    | append | insert | replace | remove => exact (h.execute _).afterCommand h
    | undo => exact (h.walk .back).afterStep h
    | redo => exact (h.walk .forth).afterStep h

theorem indistinguishable (h : j.Alike k) : j.Indistinguishable k := by
  refine ⟨h.view_eq, fun us => ?_⟩
  induction us generalizing j k with
  | nil => rfl
  | cons u us ih => simp only [answers, h.answer_eq u, (h.next u).view_eq, ih (h.next u)]

end Alike

namespace Walkable

theorem balanced_ahead (h : j.Walkable) {c : Command α} (hc : (j.ahead d).head? = some c) :
    c.Balanced d := by
  cases d with
  | forth => trivial
  | back =>
    obtain ⟨-, lists, hline, -⟩ := h
    have hchain := hline .back
    obtain ⟨cs, hcs⟩ := List.head?_eq_some_iff.1 hc
    rw [ahead_map, hcs] at hchain
    generalize (j.map fun _ => ()).items = xs at hchain
    generalize lists .back = ps at hchain
    cases hchain with
    | cons hlinks _ => exact Command.balanced_map_iff.1 hlinks.balanced

/-- A step through the history and the step back. -/
theorem walk_back (h : j.Walkable) (hcan : (!(j.ahead d).isEmpty) = true) :
    ∃ s k t l, j.walk d = .ok (some s, k) ∧ k.walk d.opposite = .ok (some t, l) ∧ l.Alike j := by
  obtain ⟨x, k, hwalk, -⟩ := h.exists_walk d
  obtain ⟨hnone, -, -⟩ | ⟨c, e, items, hc, hstep, rfl, rfl⟩ := walk_eq_ok_iff.1 hwalk
  · rw [List.head?_eq_none_iff.1 hnone] at hcan
    cases hcan
  obtain ⟨cs, hcs⟩ := List.head?_eq_some_iff.1 hc
  have hlinks := Command.links_of_step (h.balanced_ahead hc) hstep
  have hnext : ((j.passed e items d).ahead d.opposite).head? = some e := by
    rw [ahead_passed, if_neg d.opposite_ne]
    rfl
  refine ⟨_, _, _, _, hwalk, walk_eq_ok_iff.2 (.inr ⟨e, e, j.items, hnext, ?_, rfl, rfl⟩), ?_⟩
  · rw [items_passed]
    exact hlinks.back
  · refine ⟨items_passed .., fun b => ?_⟩
    rw [ahead_passed, ahead_passed]
    by_cases hb : b = d
    · subst hb
      rw [if_neg b.opposite_ne.symm, if_pos rfl, hcs]
      exact .cons (Command.stepsLike_of_step hstep) (List.forall₂_same.2 fun c _ => .refl b c)
    · rw [if_pos (Direction.eq_opposite hb), if_neg hb]
      exact List.forall₂_same.2 fun c _ => .refl b c

end Walkable

/-- Whatever is done with a journaled list, writes in place included: undoing and redoing do not fail,
and a step through the history followed by the step back leaves the list with all that was written in
it, in a journal that nothing tells from the one before. -/
theorem exact_of_uses (xs : List α) (us : List (Use α)) :
    let j := (ofList xs).nextAll us
    (∃ x, j.undo = .ok x) ∧ (∃ x, j.redo = .ok x) ∧
      (j.canUndo = true → ∃ s k t l, j.undo = .ok (some s, k) ∧ k.redo = .ok (some t, l) ∧
        l.items = j.items ∧ l.Indistinguishable j) ∧
      (j.canRedo = true → ∃ s k t l, j.redo = .ok (some s, k) ∧ k.undo = .ok (some t, l) ∧
        l.items = j.items ∧ l.Indistinguishable j) := by
  intro j
  have hwalk : j.Walkable := (Walkable.ofList xs).nextAll us
  obtain ⟨x, k, hundo, -⟩ := hwalk.exists_walk .back
  obtain ⟨y, l, hredo, -⟩ := hwalk.exists_walk .forth
  refine ⟨⟨_, hundo⟩, ⟨_, hredo⟩, fun hcan => ?_, fun hcan => ?_⟩
  · obtain ⟨s, k, t, l, hback, hforth, halike⟩ := hwalk.walk_back (d := .back) hcan
    exact ⟨s, k, t, l, hback, hforth, halike.items_eq, halike.indistinguishable⟩
  · obtain ⟨s, k, t, l, hforth, hback, halike⟩ := hwalk.walk_back (d := .forth) hcan
    exact ⟨s, k, t, l, hforth, hback, halike.items_eq, halike.indistinguishable⟩

/-- A list that was replaced and written in place, undone and done again. -/
theorem exact_of_uses_written :
    let j := (ofList [1, 2, 3]).nextAll
      [.ask (.replace 1 2 [8]), .write fun _ i n => n + 10 * i, .ask (.remove 0 1), .ask .undo]
    (j.canUndo = true ∧ ∃ s k t l, j.undo = .ok (some s, k) ∧ k.redo = .ok (some t, l) ∧
        l.items = j.items ∧ l.Indistinguishable j) ∧
      (j.canRedo = true ∧ ∃ s k t l, j.redo = .ok (some s, k) ∧ k.undo = .ok (some t, l) ∧
        l.items = j.items ∧ l.Indistinguishable j) :=
  ⟨⟨by decide, (exact_of_uses [1, 2, 3] _).2.2.1 (by decide)⟩,
    ⟨by decide, (exact_of_uses [1, 2, 3] _).2.2.2 (by decide)⟩⟩

/-- The stacks themselves differ: the command still has the element that it put in, and once it is
undone and done again it has the one that was written since. -/
example : let j := (ofList [1, 2, 3]).nextAll [.ask (.replace 1 2 [8]), .write fun _ i n => n + 10 * i]
    j.done = [.replace 1 2 [8] [2, 3]] ∧
      (j.nextAll [.ask .undo, .ask .redo]).done = [.replace 1 2 [18] [2, 3]] := by
  decide

end Journal

end RoutineSync
