import RoutineSync.History.Journal
import RoutineSync.Proofs.History.Steps
/-!
A journaled list as a line of snapshots. A command that was applied links the list before it to the
list after it. Undoing and redoing only move along the line, so they never fail.
-/
set_option autoImplicit false

namespace RoutineSync.Journal
variable {α β : Type} {j k : Journal α} {d : Direction} {x : Option (Splice α)}

theorem execute_eq (j : Journal α) (c : Command α) :
    j.execute c = (c.step .forth j.items).map fun p => (p.1, ⟨p.2, p.1 :: j.done, []⟩) := by
  rw [execute, Operations.execute, Result.run_bind]
  show c.step .forth j.items >>= _ = _
  cases c.step .forth j.items <;> rfl

theorem execute_eq_ok_iff {c e : Command α} :
    j.execute c = .ok (e, k) ↔
      ∃ items, c.step .forth j.items = .ok (e, items) ∧ (⟨items, e :: j.done, []⟩ : Journal α) = k := by
  rw [execute_eq, Result.map_eq_ok_iff]
  simp only [Prod.exists, Prod.mk.injEq]
  exact ⟨fun ⟨_, items, hstep, rfl, hk⟩ => ⟨items, hstep, hk⟩,
    fun ⟨items, hstep, hk⟩ => ⟨e, items, hstep, rfl, hk⟩⟩

theorem items_passed (j : Journal α) (c : Command α) (items : List α) (d : Direction) :
    (j.passed c items d).items = items := by
  cases d <;> rfl

theorem ahead_passed (j : Journal α) (c : Command α) (items : List α) (d e : Direction) :
    (j.passed c items d).ahead e = if e = d then (j.ahead e).tail else c :: j.ahead e := by
  cases d <;> cases e <;> rfl

theorem walk_of_none (h : (j.ahead d).head? = none) : j.walk d = .ok (none, j) := by
  rw [walk, Operations.walk, h]
  rfl

theorem walk_of_some {c : Command α} (h : (j.ahead d).head? = some c) :
    j.walk d = (c.step d j.items).map fun p =>
      (some (c.splice d j.items.length), j.passed p.1 p.2 d) := by
  rw [walk, Operations.walk, h]
  dsimp only
  rw [Result.run_bind]
  show c.step d j.items >>= _ = _
  cases c.step d j.items <;> rfl

theorem walk_eq_ok_iff : j.walk d = .ok (x, k) ↔
    ((j.ahead d).head? = none ∧ x = none ∧ k = j) ∨
      ∃ c e items, (j.ahead d).head? = some c ∧ c.step d j.items = .ok (e, items) ∧
        x = some (c.splice d j.items.length) ∧ k = j.passed e items d := by
  cases h : (j.ahead d).head? with
  | none =>
    rw [walk_of_none h]
    simp [eq_comm]
  | some c =>
    rw [walk_of_some h, Result.map_eq_ok_iff]
    simp [eq_comm]

theorem peek_of_walk (h : j.walk d = .ok (x, k)) : j.peek d = x := by
  obtain ⟨hnone, rfl, -⟩ | ⟨c, e, items, hc, -, rfl, -⟩ := walk_eq_ok_iff.1 h
  · rw [peek, hnone]
    rfl
  · rw [peek, hc]
    rfl

theorem eq_run_of_walk {s : Splice α} (h : j.walk d = .ok (some s, k)) :
    s.Fits j.items ∧ k.items = s.run j.items := by
  obtain ⟨-, hnone, -⟩ | ⟨c, e, items, -, hstep, hs, rfl⟩ := walk_eq_ok_iff.1 h
  · exact absurd hnone nofun
  · obtain rfl := Option.some.inj hs
    obtain ⟨hfits, -, rfl⟩ := Command.step_eq_ok_iff.1 hstep
    exact ⟨hfits, items_passed ..⟩

/-- The commands lead one way from `xs` through the lists. -/
inductive Chain (d : Direction) : List (Command α) → List α → List (List α) → Prop where
  | nil {xs : List α} : Chain d [] xs []
  | cons {c : Command α} {cs : List (Command α)} {xs ys : List α} {lists : List (List α)} :
      c.Links d xs ys → Chain d cs ys lists → Chain d (c :: cs) xs (ys :: lists)

theorem Chain.isEmpty_eq {cs : List (Command α)} {xs : List α} {lists : List (List α)}
    (h : Chain d cs xs lists) : cs.isEmpty = lists.isEmpty := by
  cases h <;> rfl

/-- The lists that the history leads through, either way. -/
def Line (j : Journal α) (lists : Direction → List (List α)) : Prop :=
  ∀ d, Chain d (j.ahead d) j.items (lists d)

/-- What lies either way of the next list, if `lists` did before. -/
def pass (d : Direction) (xs : List α) (lists : Direction → List (List α)) :
    Direction → List (List α) :=
  fun e => if e = d then (lists e).tail else xs :: lists e

theorem line_ofList (xs : List α) : (ofList xs).Line fun _ => [] := by
  intro d
  cases d <;> exact .nil

theorem line_execute {c e : Command α} {lists : Direction → List (List α)} (h : j.Line lists)
    (he : j.execute c = .ok (e, k)) :
    k.Line fun | .back => j.items :: lists .back | .forth => [] := by
  obtain ⟨items, hstep, rfl⟩ := execute_eq_ok_iff.1 he
  intro d
  cases d with
  | back => exact .cons (Command.links_of_step (by trivial) hstep).turned (h .back)
  | forth => exact .nil

theorem walk_at_end {lists : Direction → List (List α)} (h : j.Line lists) (hd : lists d = []) :
    j.walk d = .ok (none, j) := by
  have hchain := h d
  rw [hd] at hchain
  refine walk_of_none ?_
  cases hcs : j.ahead d with
  | nil => rfl
  | cons c cs =>
    rw [hcs] at hchain
    cases hchain

theorem walk_line {p : List α} {ps : List (List α)} {lists : Direction → List (List α)}
    (h : j.Line lists) (hd : lists d = p :: ps) :
    ∃ s k, j.walk d = .ok (some s, k) ∧ k.items = p ∧ k.Line (pass d j.items lists) := by
  have hchain := h d
  rw [hd] at hchain
  cases hcs : j.ahead d with
  | nil =>
    rw [hcs] at hchain
    cases hchain
  | cons c cs =>
    rw [hcs] at hchain
    obtain ⟨hlinks, hrest⟩ : c.Links d j.items p ∧ Chain d cs p ps := by
      cases hchain with
      | cons hlinks hrest => exact ⟨hlinks, hrest⟩
    have hwalk : j.walk d = .ok (some (c.splice d j.items.length), j.passed c p d) :=
      walk_eq_ok_iff.2 (.inr ⟨c, c, p, by rw [hcs]; rfl, hlinks.there, rfl, rfl⟩)
    refine ⟨_, _, hwalk, items_passed .., fun e => ?_⟩
    rw [items_passed, ahead_passed, pass]
    by_cases he : e = d
    · subst he
      rw [if_pos rfl, if_pos rfl, hcs, hd]
      exact hrest
    · obtain rfl := Direction.eq_opposite he
      rw [if_neg he, if_neg he]
      exact .cons hlinks.turned (h _)

def map (f : α → β) (j : Journal α) : Journal β :=
  ⟨j.items.map f, j.done.map (Command.map f), j.undone.map (Command.map f)⟩

theorem ahead_map (f : α → β) (j : Journal α) (d : Direction) :
    (j.map f).ahead d = (j.ahead d).map (Command.map f) := by
  cases d <;> rfl

theorem map_execute (f : α → β) (j : Journal α) (c : Command α) :
    (j.map f).execute (c.map f) = (j.execute c).map fun p => (p.1.map f, p.2.map f) := by
  rw [execute_eq, execute_eq]
  show ((c.map f).step .forth (j.items.map f)).map _ = _
  rw [Command.step_map]
  cases c.step .forth j.items <;> rfl

theorem map_walk (f : α → β) (d : Direction) (j : Journal α) :
    (j.map f).walk d = (j.walk d).map fun p => (p.1.map (Splice.map f), p.2.map f) := by
  have hahead : ((j.map f).ahead d).head? = (j.ahead d).head?.map (Command.map f) := by
    rw [ahead_map, List.head?_map]
  cases hc : (j.ahead d).head? with
  | none =>
    rw [walk_of_none hc, walk_of_none (by rw [hahead, hc]; rfl)]
    rfl
  | some c =>
    rw [walk_of_some hc, walk_of_some (by rw [hahead, hc]; rfl)]
    show ((c.map f).step d (j.items.map f)).map _ = _
    have hlength : (j.map f).items.length = j.items.length := List.length_map f
    rw [Command.step_map, hlength, Command.splice_map]
    cases c.step d j.items with
    | error e => rfl
    | ok p => cases d <;> simp [Except.map, passed, map]

theorem map_peek (f : α → β) (d : Direction) (j : Journal α) :
    (j.map f).peek d = (j.peek d).map (Splice.map f) := by
  have hlength : (j.map f).items.length = j.items.length := List.length_map f
  rw [peek, peek, ahead_map, List.head?_map, hlength, Option.map_map, Option.map_map]
  exact congrArg (Option.map · _) (funext fun c => Command.splice_map f c d _)

/-- Writes in place that keep `f` of every element do not show under `f`. -/
theorem map_mapItems {f : α → β} {g : Nat → α → α} (h : ∀ i x, f (g i x) = f x) (j : Journal α) :
    (j.mapItems g).map f = j.map f := by
  simp only [map, mapItems, Journal.mk.injEq, and_true]
  apply List.ext_getElem <;> simp [h]

end RoutineSync.Journal
