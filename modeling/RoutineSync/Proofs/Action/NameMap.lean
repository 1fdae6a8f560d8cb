import Mathlib.Data.List.Sort
import Mathlib.Data.String.Basic
import RoutineSync.Proofs.Call.Layout
/-!
Maps from names as functions: entries in the order of their names are told by what stands under each
name.
-/
set_option autoImplicit false

namespace RoutineSync.NameMap
variable {α : Type} {m n : NameMap α}

/-- Entries in strictly increasing order of their names. -/
def Sorted (m : NameMap α) : Prop := m.Pairwise fun e f => e.1 < f.1

theorem Sorted.insert (h : m.Sorted) (name : String) (a : α) : (m.insert name a).Sorted := by
  induction h with
  | nil => exact List.pairwise_singleton _ _
  | @cons e r hfirst hr ih =>
    obtain ⟨n, b⟩ := e
    rw [NameMap.insert]
    split
    · rename_i hlt
      refine .cons (fun f hf => ?_) (.cons hfirst hr)
      rcases List.mem_cons.1 hf with rfl | hf
      · exact hlt
      · exact lt_trans hlt (hfirst f hf)
    · rename_i hge
      split
      · rename_i heq
        exact .cons (heq ▸ hfirst) hr
      · rename_i hne
        refine .cons (fun f hf => ?_) ih
        rcases mem_insert hf with rfl | hf
        · exact lt_of_le_of_ne (not_lt.1 hge) hne
        · exact hfirst f hf

theorem sorted_foldl_insert (entries : List (String × α)) (h : m.Sorted) :
    (entries.foldl (fun m e => insert e.1 e.2 m) m).Sorted := by
  induction entries generalizing m with
  | nil => exact h
  | cons e es ih => exact ih (h.insert e.1 e.2)

theorem sorted_ofList (entries : List (String × α)) : (ofList entries).Sorted :=
  sorted_foldl_insert entries .nil

theorem Sorted.get?_eq_some_iff (h : m.Sorted) {name : String} {a : α} :
    m.get? name = some a ↔ (name, a) ∈ m := by
  refine ⟨mem_of_get?, fun ha => ?_⟩
  induction h with
  | nil => exact absurd ha List.not_mem_nil
  | @cons e r hfirst _ ih =>
    obtain ⟨n, b⟩ := e
    rw [get?]
    rcases List.mem_cons.1 ha with heq | ha
    · obtain ⟨rfl, rfl⟩ := Prod.mk.inj heq
      exact if_pos rfl
    · rw [if_neg (hfirst _ ha).ne, ih ha]

/-- What stands under each name tells the entries, which are in order. -/
theorem Sorted.ext (hm : m.Sorted) (hn : n.Sorted) (h : ∀ name, m.get? name = n.get? name) :
    m = n := by
  let before : String × α → String × α → Prop := fun e f => e.1 < f.1
  have : Std.Irrefl before := ⟨fun e => lt_irrefl e.1⟩
  have : Std.Antisymm before := ⟨fun e f hef hfe => absurd hef (lt_asymm hfe)⟩
  refine List.Pairwise.eq_of_mem_iff (r := before) hm hn fun ⟨name, a⟩ => ?_
  rw [← hm.get?_eq_some_iff, ← hn.get?_eq_some_iff, h]

theorem Sorted.ofList_of_perm {entries : List (String × α)} (hm : m.Sorted) (h : m.Perm entries) :
    ofList entries = m := by
  have hnodup : (entries.map (·.1)).Nodup :=
    (h.map (·.1)).nodup_iff.1 (List.pairwise_map.2 (hm.imp fun hlt => hlt.ne))
  refine (sorted_ofList entries).ext hm fun name => Option.ext fun a => ?_
  rw [(sorted_ofList entries).get?_eq_some_iff, hm.get?_eq_some_iff, (perm_ofList hnodup).mem_iff,
    h.mem_iff]

theorem Sorted.names_eq {β : Type} {k : NameMap β} (hm : m.Sorted) (hk : k.Sorted)
    (h : ∀ name, name ∈ m.names ↔ name ∈ k.names) : m.names = k.names :=
  (List.pairwise_map.2 hm).eq_of_mem_iff (List.pairwise_map.2 hk) h

theorem get?_eq_none_iff {name : String} : m.get? name = none ↔ name ∉ m.names := by
  induction m with
  | nil => simp [get?, names]
  | cons e r ih =>
    obtain ⟨n, b⟩ := e
    rw [get?, names, List.map_cons, List.mem_cons, not_or]
    by_cases hn : n = name
    · simp [hn]
    · rw [if_neg hn, ih, eq_comm (a := name)]
      exact ⟨fun h => ⟨hn, h⟩, fun h => h.2⟩

end RoutineSync.NameMap
