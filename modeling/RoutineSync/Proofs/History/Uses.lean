import RoutineSync.Proofs.History.Snapshots
import RoutineSync.Proofs.History.Throughout
/-!
A journaled list whose elements are also written in place, outside the journal. Such writes leave
the lengths alone, and by its lengths the journal still is a line of lists: undoing and redoing never
fail, and they make the splice that was announced.
-/
set_option autoImplicit false

namespace RoutineSync.Journal
variable {α : Type} {j k : Journal α}

/-- What can be done with a journaled list, with whatever arguments. -/
inductive Use (α : Type) where
  | ask (q : Request α)
  /-- Gives every place a new element, chosen by the whole list, the place and the old element. -/
  | write (f : List α → Nat → α → α)

def next (j : Journal α) : Use α → Journal α
  | .ask q => (j.respond q).2
  | .write f => j.mapItems (f j.items)

def nextAll (j : Journal α) (us : List (Use α)) : Journal α := us.foldl next j

/-- By the lengths of its lists, the history can be walked in both directions. -/
def Walkable (j : Journal α) : Prop := (j.map fun _ => ()).Throughout fun _ => True

namespace Walkable

theorem ofList (xs : List α) : (ofList xs).Walkable := Throughout.ofList trivial

theorem exists_walk (h : j.Walkable) (d : Direction) :
    ∃ x k, j.walk d = .ok (x, k) ∧ k.Walkable :=
  Throughout.walk_of_map h d

theorem afterCommand (h : j.Walkable) (c : Command α) :
    (j.afterCommand (j.execute c)).2.Walkable := by
  have hmap := map_execute (fun _ => ()) j c
  cases hx : j.execute c with
  | error e => exact h
  | ok p =>
    rw [hx] at hmap
    exact Throughout.execute h hmap trivial

theorem afterStep (h : j.Walkable) (d : Direction) : (j.afterStep (j.walk d)).2.Walkable := by
  obtain ⟨x, k, hwalk, hk⟩ := h.exists_walk d
  rw [hwalk]
  cases x <;> exact hk

theorem next (h : j.Walkable) (u : Use α) : (j.next u).Walkable := by
  cases u with
  | write f =>
    rw [Walkable, Journal.next, map_mapItems (f := fun _ => ()) fun _ _ => rfl]
    exact h
  | ask q =>
    cases q with
    | append elements => exact h.afterCommand (.append elements)
    | insert index elements => exact h.afterCommand (.insert index elements)
    | replace index count elements => exact h.afterCommand (.replace index count elements [])
    | remove index count => exact h.afterCommand (.remove index count [])
    | undo => exact h.afterStep .back
    | redo => exact h.afterStep .forth

theorem nextAll (h : j.Walkable) (us : List (Use α)) : (j.nextAll us).Walkable := by
  induction us generalizing j with
  | nil => exact h
  | cons u us ih => exact ih (h.next u)

end Walkable

/-- A step through the history that is taken as it was announced: where nothing was announced it does
nothing, and else it makes the announced splice, which fits the list. -/
structure Announced (j : Journal α) (splice : Option (Splice α))
    (step : Except RangeError (Option (Splice α) × Journal α)) : Prop where
  none_iff : splice = none ↔ ∃ k, step = .ok (none, k)
  of_some : ∀ s, splice = some s → s.index + s.count ≤ j.items.length ∧
    ∃ k, step = .ok (some s, k) ∧
      k.items = j.items.take s.index ++ s.inserted ++ j.items.drop (s.index + s.count)

theorem Walkable.announced (h : j.Walkable) (d : Direction) : j.Announced (j.peek d) (j.walk d) := by
  obtain ⟨x, k, hwalk, -⟩ := h.exists_walk d
  rw [hwalk, peek_of_walk hwalk]
  constructor
  · constructor
    · rintro rfl
      exact ⟨k, rfl⟩
    · rintro ⟨l, hl⟩
      exact (Prod.mk.inj (Except.ok.inj hl)).1
  · rintro s rfl
    obtain ⟨hfits, hitems⟩ := eq_run_of_walk hwalk
    exact ⟨hfits, k, rfl, hitems⟩

/-- Whatever is done with a journaled list, writes in place included, what undoing and redoing would
do is what they do. -/
theorem announced_of_uses (xs : List α) (us : List (Use α)) :
    let j := (ofList xs).nextAll us
    j.Announced j.peekUndo j.undo ∧ j.Announced j.peekRedo j.redo := by
  intro j
  have hwalk : j.Walkable := (Walkable.ofList xs).nextAll us
  exact ⟨hwalk.announced .back, hwalk.announced .forth⟩

/-- An element that was written in place is announced as it is now. -/
example : ((ofList [1, 2, 3]).nextAll
    [.ask (.append [4]), .write fun _ i n => n + 10 * i, .ask .undo]).peekRedo
    = some ⟨3, 0, [34]⟩ := by
  decide

end RoutineSync.Journal
