import RoutineSync.Proofs.History.Timeline
/-!
What holds of every list that the history leads through, back by undoing and on by redoing.
-/
set_option autoImplicit false

namespace RoutineSync.Journal
variable {α : Type} {P : List α → Prop} {j k : Journal α} {d : Direction}

structure Throughout (P : List α → Prop) (j : Journal α) : Prop where
  now : P j.items
  line : ∃ lists, j.Line lists ∧ ∀ d, ∀ xs ∈ lists d, P xs

namespace Throughout

theorem ofList {xs : List α} (h : P xs) : Throughout P (.ofList xs) :=
  ⟨h, _, Journal.line_ofList xs, by simp⟩

theorem execute {c e : Command α} (h : j.Throughout P) (hx : j.execute c = .ok (e, k))
    (hk : P k.items) : k.Throughout P := by
  obtain ⟨hnow, lists, hline, hlists⟩ := h
  refine ⟨hk, _, Journal.line_execute hline hx, fun d => ?_⟩
  cases d with
  | back => exact List.forall_mem_cons.2 ⟨hnow, hlists .back⟩
  | forth => exact fun xs hxs => absurd hxs List.not_mem_nil

theorem walk (h : j.Throughout P) (d : Direction) :
    ∃ s k, j.walk d = .ok (s, k) ∧ k.Throughout P := by
  obtain ⟨hnow, lists, hline, hlists⟩ := h
  cases hd : lists d with
  | nil => exact ⟨none, j, Journal.walk_at_end hline hd, hnow, lists, hline, hlists⟩
  | cons p ps =>
    obtain ⟨s, k, hwalk, hitems, hk⟩ := Journal.walk_line hline hd
    refine ⟨some s, k, hwalk, by rw [hitems]; exact hlists d p (by simp [hd]), _, hk, fun e => ?_⟩
    unfold pass
    split
    · exact fun xs hxs => hlists e xs (List.mem_of_mem_tail hxs)
    · exact List.forall_mem_cons.2 ⟨hnow, hlists e⟩

/-- A journal can be walked where it can when `f` is taken of every element. -/
theorem walk_of_map {β : Type} {f : β → α} {l : Journal β} (h : (l.map f).Throughout P)
    (d : Direction) : ∃ x m, l.walk d = .ok (x, m) ∧ (m.map f).Throughout P := by
  obtain ⟨s, k, hwalk, hk⟩ := h.walk d
  rw [map_walk, Result.map_eq_ok_iff] at hwalk
  obtain ⟨⟨x, m⟩, hwalk, hmap⟩ := hwalk
  exact ⟨x, m, hwalk, (Prod.mk.inj hmap).2 ▸ hk⟩

theorem peek (h : j.Throughout P) {s : Splice α} (hs : j.peek d = some s) :
    s.Fits j.items ∧ P (s.run j.items) := by
  obtain ⟨x, k, hwalk, hk⟩ := h.walk d
  rw [peek_of_walk hwalk] at hs
  obtain ⟨hfits, hitems⟩ := eq_run_of_walk (hs ▸ hwalk)
  exact ⟨hfits, hitems ▸ hk.now⟩

end Throughout

end RoutineSync.Journal
