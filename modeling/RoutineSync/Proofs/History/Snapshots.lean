import RoutineSync.Proofs.History.Timeline
/-!
A journaled list as it is seen from outside: lists that were held one after another, and a cursor on
the one that is held now. Whatever is asked of the journal ends as it does there, and leads to the
list under the cursor.
-/
set_option autoImplicit false

namespace RoutineSync

inductive Journal.Request (α : Type) where
  | append (elements : List α)
  | insert (index : Nat) (elements : List α)
  | replace (index count : Nat) (elements : List α)
  | remove (index count : Nat)
  | undo
  | redo

inductive Journal.Ending where
  | done
  /-- There was nothing to undo or to redo. -/
  | idle
  | refused (error : RangeError)
deriving DecidableEq

open Journal (Request Ending)

/-- Lists that were held one after another, and which of them is held now. -/
structure Snapshots (α : Type) where
  lists : List (List α)
  cursor : Nat
  cursor_lt : cursor < lists.length

namespace Snapshots
variable {α : Type}

def ofList (xs : List α) : Snapshots α := ⟨[xs], 0, Nat.one_pos⟩

def now (s : Snapshots α) : List α := s.lists.get ⟨s.cursor, s.cursor_lt⟩

def push (s : Snapshots α) (xs : List α) : Snapshots α where
  lists := s.lists.take (s.cursor + 1) ++ [xs]
  cursor := s.cursor + 1
  cursor_lt := by
    have := s.cursor_lt
    simp only [List.length_append, List.length_take, List.length_singleton]
    omega

theorem getElem?_cursor (s : Snapshots α) : s.lists[s.cursor]? = some s.now :=
  List.getElem?_eq_getElem s.cursor_lt

theorem now_push (s : Snapshots α) (xs : List α) : (s.push xs).now = xs := by
  have hlength : (s.lists.take (s.cursor + 1)).length = s.cursor + 1 := by
    have := s.cursor_lt
    rw [List.length_take]
    omega
  simp [now, push, List.getElem_append_right, hlength]

theorem take_push (s : Snapshots α) (xs : List α) :
    (s.push xs).lists.take (s.cursor + 1) = s.lists.take s.cursor ++ [s.now] := by
  have := s.cursor_lt
  rw [push, List.take_append_of_le_length (by rw [List.length_take]; omega), List.take_take,
    Nat.min_self]
  exact List.take_succ_eq_append_getElem s.cursor_lt

theorem drop_push (s : Snapshots α) (xs : List α) :
    (s.push xs).lists.drop (s.cursor + 1 + 1) = [] := by
  rw [List.drop_eq_nil_iff, push, List.length_append, List.length_take, List.length_singleton]
  omega

/-- The lists on either side of the cursor, the nearest first. -/
def around (s : Snapshots α) : Direction → List (List α)
  | .back => (s.lists.take s.cursor).reverse
  | .forth => s.lists.drop (s.cursor + 1)

theorem around_push (s : Snapshots α) (xs : List α) :
    (s.push xs).around = fun | .back => s.now :: s.around .back | .forth => [] := by
  funext d
  cases d with
  | forth => exact s.drop_push xs
  | back =>
    show ((s.push xs).lists.take (s.cursor + 1)).reverse = _
    rw [s.take_push, List.reverse_append]
    rfl

def splice (s : Snapshots α) (p : Splice α) : Ending × Snapshots α :=
  if p.index + p.count ≤ s.now.length then (.done, s.push (p.run s.now))
  else (.refused ⟨p.index, p.count, s.now.length⟩, s)

def back (s : Snapshots α) : Ending × Snapshots α :=
  if 0 < s.cursor then
    (.done, { s with
      cursor := s.cursor - 1
      cursor_lt := Nat.lt_of_le_of_lt (Nat.sub_le _ _) s.cursor_lt })
  else (.idle, s)

def onward (s : Snapshots α) : Ending × Snapshots α :=
  if h : s.cursor + 1 < s.lists.length then
    (.done, { s with cursor := s.cursor + 1, cursor_lt := h })
  else (.idle, s)

def respond (s : Snapshots α) : Request α → Ending × Snapshots α
  | .append elements => s.splice ⟨s.now.length, 0, elements⟩
  | .insert index elements => s.splice ⟨index, 0, elements⟩
  | .replace index count elements => s.splice ⟨index, count, elements⟩
  | .remove index count => s.splice ⟨index, count, []⟩
  | .undo => s.back
  | .redo => s.onward

def walk (s : Snapshots α) : Direction → Ending × Snapshots α
  | .back => s.back
  | .forth => s.onward

theorem walk_of_nil {s : Snapshots α} {d : Direction} (h : s.around d = []) :
    s.walk d = (.idle, s) := by
  obtain ⟨lists, cursor, hlt⟩ := s
  cases d with
  | back =>
    have hcursor : ¬ 0 < cursor := by
      rw [around, List.reverse_eq_nil_iff, List.take_eq_nil_iff] at h
      rcases h with rfl | rfl
      · exact Nat.lt_irrefl 0
      · exact absurd hlt (Nat.not_lt_zero _)
    exact if_neg hcursor
  | forth => exact dif_neg (Nat.not_lt.2 (List.drop_eq_nil_iff.1 h))

theorem walk_of_cons {s : Snapshots α} {d : Direction} {p : List α} {ps : List (List α)}
    (h : s.around d = p :: ps) :
    (s.walk d).1 = .done ∧ (s.walk d).2.now = p ∧
      (s.walk d).2.around = Journal.pass d s.now s.around := by
  obtain ⟨lists, cursor, hlt⟩ := s
  cases d with
  | back =>
    cases cursor with
    | zero => exact absurd h nofun
    | succ n =>
      simp only [around, List.take_succ_eq_append_getElem (Nat.lt_of_succ_lt hlt),
        List.reverse_append] at h
      refine ⟨rfl, (List.cons.inj h).1, funext fun e => ?_⟩
      cases e with
      | back =>
        show (lists.take n).reverse = ((lists.take (n + 1)).reverse).tail
        rw [List.take_succ_eq_append_getElem (Nat.lt_of_succ_lt hlt), List.reverse_append]
        rfl
      | forth => exact List.drop_eq_getElem_cons hlt
  | forth =>
    have hnext : cursor + 1 < lists.length := by
      refine Nat.lt_of_not_le fun hend => ?_
      rw [around, List.drop_eq_nil_iff.2 hend] at h
      cases h
    have hwalk : walk ⟨lists, cursor, hlt⟩ .forth = (.done, ⟨lists, cursor + 1, hnext⟩) :=
      dif_pos hnext
    rw [around, List.drop_eq_getElem_cons hnext] at h
    rw [hwalk]
    refine ⟨rfl, (List.cons.inj h).1, funext fun e => ?_⟩
    cases e with
    | back =>
      show (lists.take (cursor + 1)).reverse = _
      rw [List.take_succ_eq_append_getElem hlt, List.reverse_append]
      rfl
    | forth =>
      show lists.drop (cursor + 1 + 1) = (lists.drop (cursor + 1)).tail
      rw [List.tail_drop]

end Snapshots

def answerAll {σ α : Type} (respond : σ → Request α → Ending × σ) :
    σ → List (Request α) → List Ending × σ
  | s, [] => ([], s)
  | s, q :: qs =>
    let (ending, s) := respond s q
    let (endings, s) := answerAll respond s qs
    (ending :: endings, s)

namespace Snapshots
variable {α : Type}

theorem head?_splice (s : Snapshots α) (p : Splice α) :
    (s.splice p).2.lists.head? = s.lists.head? := by
  unfold splice
  split
  · obtain ⟨lists, cursor, hlt⟩ := s
    cases lists with
    | nil => exact absurd hlt (Nat.not_lt_zero _)
    | cons xs lists => rfl
  · rfl

theorem head?_respond (s : Snapshots α) (q : Request α) :
    (s.respond q).2.lists.head? = s.lists.head? := by
  cases q with
  | append | insert | replace | remove => exact s.head?_splice _
  | undo =>
    rw [respond, back]
    split <;> rfl
  | redo =>
    rw [respond, onward]
    split <;> rfl

theorem head?_answerAll (s : Snapshots α) (qs : List (Request α)) :
    (answerAll respond s qs).2.lists.head? = s.lists.head? := by
  induction qs generalizing s with
  | nil => rfl
  | cons q qs ih => exact (ih _).trans (s.head?_respond q)

theorem answerAll_undo (s : Snapshots α) (n : Nat) :
    (answerAll respond s (List.replicate n .undo)).2.lists = s.lists ∧
      (answerAll respond s (List.replicate n .undo)).2.cursor = s.cursor - n := by
  induction n generalizing s with
  | zero => exact ⟨rfl, rfl⟩
  | succ n ih =>
    obtain ⟨hlists, hcursor⟩ := ih s.back.2
    have hback : s.back.2.lists = s.lists ∧ s.back.2.cursor = s.cursor - 1 := by
      unfold back
      split
      · exact ⟨rfl, rfl⟩
      · exact ⟨rfl, by show s.cursor = s.cursor - 1; omega⟩
    refine ⟨hlists.trans hback.1, ?_⟩
    show (answerAll respond s.back.2 (List.replicate n .undo)).2.cursor = _
    omega

theorem answerAll_redo (s : Snapshots α) (n : Nat) :
    (answerAll respond s (List.replicate n .redo)).2.lists = s.lists ∧
      (answerAll respond s (List.replicate n .redo)).2.cursor
        = min (s.cursor + n) (s.lists.length - 1) := by
  induction n generalizing s with
  | zero =>
    have := s.cursor_lt
    exact ⟨rfl, by show s.cursor = _; omega⟩
  | succ n ih =>
    obtain ⟨hlists, hcursor⟩ := ih s.onward.2
    have hlt := s.cursor_lt
    have honward : s.onward.2.lists = s.lists ∧
        s.onward.2.cursor = min (s.cursor + 1) (s.lists.length - 1) := by
      unfold onward
      split
      · exact ⟨rfl, by show s.cursor + 1 = _; omega⟩
      · exact ⟨rfl, by show s.cursor = _; omega⟩
    refine ⟨hlists.trans honward.1, ?_⟩
    show (answerAll respond s.onward.2 (List.replicate n .redo)).2.cursor = _
    rw [hcursor, honward.1, honward.2]
    omega

end Snapshots

namespace Journal
variable {α : Type} {j : Journal α} {s : Snapshots α}

def afterCommand (j : Journal α) :
    Except RangeError (Command α × Journal α) → Ending × Journal α
  | .ok (_, k) => (.done, k)
  | .error e => (.refused e, j)

def afterStep (j : Journal α) :
    Except RangeError (Option (Splice α) × Journal α) → Ending × Journal α
  | .ok (some _, k) => (.done, k)
  | .ok (none, k) => (.idle, k)
  | .error e => (.refused e, j)

def respond (j : Journal α) : Request α → Ending × Journal α
  | .append elements => j.afterCommand (j.append elements)
  | .insert index elements => j.afterCommand (j.insert index elements)
  | .replace index count elements => j.afterCommand (j.replace index count elements)
  | .remove index count => j.afterCommand (j.remove index count)
  | .undo => j.afterStep j.undo
  | .redo => j.afterStep j.redo

/-- The journal holds the list under the cursor, and its stacks lead through the lists on either
side. -/
structure Shows (j : Journal α) (s : Snapshots α) : Prop where
  items_eq : j.items = s.now
  line : j.Line s.around

theorem shows_ofList (xs : List α) : (ofList xs).Shows (.ofList xs) := by
  refine ⟨rfl, fun d => ?_⟩
  cases d <;> exact .nil

def Matches (x : Ending × Journal α) (y : Ending × Snapshots α) : Prop := x.1 = y.1 ∧ x.2.Shows y.2

theorem Shows.command (h : j.Shows s) (c : Command α) :
    Matches (j.afterCommand (j.execute c)) (s.splice (c.forward s.now.length)) := by
  by_cases hfits : (c.forward s.now.length).Fits s.now
  · have hexecute := Journal.execute_eq j c
    rw [h.items_eq, Command.step_of_fits (d := .forth) hfits] at hexecute
    have hline := line_execute h.line hexecute
    rw [hexecute, Snapshots.splice, if_pos (show _ ≤ _ from hfits)]
    refine ⟨rfl, (s.now_push _).symm, ?_⟩
    rw [h.items_eq] at hline
    rw [s.around_push]
    exact hline
  · have hexecute := Journal.execute_eq j c
    rw [h.items_eq, Command.step_of_not_fits (d := .forth) hfits] at hexecute
    rw [hexecute, Snapshots.splice, if_neg (show ¬ _ ≤ _ from hfits)]
    exact ⟨rfl, h⟩

theorem Shows.walk (h : j.Shows s) (d : Direction) :
    Matches (j.afterStep (j.walk d)) (s.walk d) := by
  cases hd : s.around d with
  | nil =>
    rw [walk_at_end h.line hd, Snapshots.walk_of_nil hd]
    exact ⟨rfl, h⟩
  | cons p ps =>
    obtain ⟨splice, k, hwalk, hitems, hline⟩ := walk_line h.line hd
    obtain ⟨hdone, hnow, haround⟩ := Snapshots.walk_of_cons hd
    rw [h.items_eq] at hline
    rw [hwalk]
    exact ⟨hdone.symm, hitems.trans hnow.symm, haround ▸ hline⟩

theorem Shows.respond (h : j.Shows s) (q : Request α) : Matches (j.respond q) (s.respond q) := by
  cases q with
  | append elements => exact h.command (.append elements)
  | insert index elements => exact h.command (.insert index elements)
  | replace index count elements => exact h.command (.replace index count elements [])
  | remove index count => exact h.command (.remove index count [])
  | undo => exact h.walk .back
  | redo => exact h.walk .forth

theorem Shows.answerAll (h : j.Shows s) (qs : List (Request α)) :
    (answerAll Journal.respond j qs).1 = (answerAll Snapshots.respond s qs).1 ∧
      (answerAll Journal.respond j qs).2.Shows (answerAll Snapshots.respond s qs).2 := by
  induction qs generalizing j s with
  | nil => exact ⟨rfl, h⟩
  | cons q qs ih =>
    obtain ⟨hending, hshows⟩ := h.respond q
    obtain ⟨hendings, hshows⟩ := ih hshows
    exact ⟨congr (congrArg _ hending) hendings, hshows⟩

theorem Shows.exists_walk (h : j.Shows s) (d : Direction) : ∃ x, j.walk d = .ok x := by
  cases hd : s.around d with
  | nil => exact ⟨_, walk_at_end h.line hd⟩
  | cons p ps =>
    obtain ⟨splice, k, hwalk, -⟩ := walk_line h.line hd
    exact ⟨_, hwalk⟩

theorem Shows.canUndo_eq (h : j.Shows s) : j.canUndo = decide (0 < s.cursor) := by
  have := s.cursor_lt
  have hempty : j.done.isEmpty = (s.around .back).isEmpty := (h.line .back).isEmpty_eq
  rw [canUndo, hempty, Snapshots.around, List.isEmpty_reverse, Bool.eq_iff_iff, Bool.not_eq_true',
    decide_eq_true_iff, List.isEmpty_eq_false_iff, ← List.length_pos_iff, List.length_take]
  omega

theorem Shows.canRedo_eq (h : j.Shows s) : j.canRedo = decide (s.cursor + 1 < s.lists.length) := by
  have hempty : j.undone.isEmpty = (s.around .forth).isEmpty := (h.line .forth).isEmpty_eq
  rw [canRedo, hempty, Snapshots.around, Bool.eq_iff_iff, Bool.not_eq_true', decide_eq_true_iff,
    List.isEmpty_eq_false_iff, Ne, List.drop_eq_nil_iff]
  omega

/-- Whatever is asked of a journaled list, it ends as on a line of snapshots: a command drops the
snapshots after the cursor and adds the changed list, or is refused and changes nothing; undoing and
redoing move the cursor, or do nothing at the ends of the line, and cannot fail. When nothing is
left to undo the list is the first one again, when nothing is left to redo it is the newest. -/
theorem answerAll_eq_snapshots (xs : List α) (qs : List (Request α)) :
    let r := answerAll respond (ofList xs) qs
    let s := answerAll Snapshots.respond (.ofList xs) qs
    r.1 = s.1 ∧ r.2.items = s.2.now ∧ r.2.canUndo = decide (0 < s.2.cursor) ∧
      r.2.canRedo = decide (s.2.cursor + 1 < s.2.lists.length) ∧
      (∃ x, r.2.undo = .ok x) ∧ (∃ x, r.2.redo = .ok x) ∧
      (∀ k, (answerAll respond r.2 (List.replicate (s.2.cursor + k) .undo)).2.items = xs) ∧
      ∀ k, let left := s.2.lists.length - (s.2.cursor + 1)
        some (answerAll respond r.2 (List.replicate (left + k) .redo)).2.items
          = s.2.lists.getLast? := by
  intro r s
  obtain ⟨hendings, hshows⟩ := (shows_ofList xs).answerAll qs
  refine ⟨hendings, hshows.items_eq, hshows.canUndo_eq, hshows.canRedo_eq, hshows.exists_walk .back,
    hshows.exists_walk .forth, fun k => ?_, fun k => ?_⟩
  · obtain ⟨-, hend⟩ := hshows.answerAll (List.replicate (s.2.cursor + k) .undo)
    obtain ⟨hlists, hcursor⟩ := s.2.answerAll_undo (s.2.cursor + k)
    have hnow := Snapshots.getElem?_cursor
      (answerAll Snapshots.respond s.2 (List.replicate (s.2.cursor + k) .undo)).2
    have hfirst : s.2.lists.head? = some xs := Snapshots.head?_answerAll (.ofList xs) qs
    rw [hlists, hcursor, Nat.sub_eq_zero_of_le (Nat.le_add_right _ _), ← List.head?_eq_getElem?,
      hfirst] at hnow
    exact hend.items_eq.trans (Option.some.inj hnow).symm
  · intro left
    obtain ⟨-, hend⟩ := hshows.answerAll (List.replicate (left + k) .redo)
    obtain ⟨hlists, hcursor⟩ := s.2.answerAll_redo (left + k)
    have hnow := Snapshots.getElem?_cursor
      (answerAll Snapshots.respond s.2 (List.replicate (left + k) .redo)).2
    rw [hlists, hcursor, Nat.min_eq_right (by omega), ← List.getLast?_eq_getElem?] at hnow
    exact (congrArg some hend.items_eq).trans hnow.symm

/-- A command that is refused leaves what was undone to be redone. -/
example : (answerAll respond (ofList [1, 2, 3]) [.append [4], .undo, .remove 2 5, .redo]).2.items
    = [1, 2, 3, 4] := by
  decide

end Journal

end RoutineSync
