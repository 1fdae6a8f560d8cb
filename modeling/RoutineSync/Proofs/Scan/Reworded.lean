import RoutineSync.Proofs.Call.Rewording
import RoutineSync.Proofs.Scan.Report
import RoutineSync.Proofs.Scan.Spread
import RoutineSync.Proofs.Sync.ReadBack
/-!
What a scan finds of a call by itself, and which action a call with other literals writes.
-/
set_option autoImplicit false

namespace RoutineSync

/-- A text that is one call, and no call of another kind, is scanned as this call. -/
theorem scan_eq_singleton {kind : ActionKind} {m : CallMatch} {d : ScannedCall}
    (hm : (CallShape.standard kind).match? m.text = some m)
    (hother : ∀ k, k ≠ kind → (CallShape.standard k).match? m.text = none)
    (hd : ScannedCall.ofMatch? kind 0 m = some d) : scan m.text = [d] := by
  obtain ⟨hstart, hstop⟩ := ScannedCall.site_of_ofMatch? hd
  refine Scan.Spread.scan_eq ⟨?_, List.pairwise_singleton _ _, ?_⟩
  · simp only [List.mem_singleton, forall_eq]
    exact ⟨kind, [], m.text, m, rfl, hm, hd, rfl⟩
  · intro k lead rest n ht hn _
    have hsize := congrArg Text.size ht
    obtain ⟨x, rfl⟩ := CallShape.prefix_of_match? hn
    rw [Text.size_append, Text.size_append] at hsize
    refine ⟨d, List.mem_singleton_self d, by omega, ?_⟩
    cases lead with
    | nil =>
      rw [List.nil_append] at ht
      rw [← ht] at hn
      by_cases hk : k = kind
      · subst hk
        rw [Option.some.inj (hn.symm.trans hm)]
        exact .inl hd
      · rw [hother k hk] at hn
        exact absurd hn (by simp)
    | cons c lead =>
      have := c.utf8Size_pos
      rw [hstart, Text.size_cons]
      exact .inr (by omega)

theorem scan_eq_of_extract {kind : ActionKind} {t : Text} {values : NameMap Value}
    {ranges : NameMap ByteRange} {a : Action}
    (h : ((CallShape.standard kind).match? t).bind (fun m => m.extract?.map fun e => (m.text, e))
      = some (t, values, ranges))
    (hother : ∀ k ∈ ActionKind.all, k ≠ kind → ((CallShape.standard k).match? t).isNone = true)
    (ha : Action.ofParams? kind values = some a) : scan t = [⟨a, ⟨0, t.size, t, ranges⟩⟩] := by
  obtain ⟨m, hm, h⟩ := Option.bind_eq_some_iff.1 h
  obtain ⟨e, he, heq⟩ := Option.map_eq_some_iff.1 h
  obtain ⟨rfl, rfl⟩ := Prod.mk.inj heq
  have hscan := scan_eq_singleton hm
    (fun k hk => Option.isNone_iff_eq_none.1 (hother k (ActionKind.mem_all k) hk))
    (ScannedCall.ofMatch?_eq_some_iff.2 ⟨values, ranges, a, he, ha, rfl⟩)
  rwa [Nat.zero_add] at hscan

namespace NameMap
variable {α β : Type}

theorem contains_eq_true_iff {m : NameMap α} {name : String} :
    m.contains name = true ↔ name ∈ m.names := by
  rw [contains, ← not_iff_not, ← get?_eq_none_iff, Option.not_isSome_iff_eq_none]

theorem contains_congr {m : NameMap α} {n : NameMap β} (h : m.names = n.names) (name : String) :
    m.contains name = n.contains name := by
  rw [Bool.eq_iff_iff, contains_eq_true_iff, contains_eq_true_iff, h]

end NameMap

namespace CallShape
open CallMatch (Reworded)

section
variable {kind : ActionKind} {t : Text} {m n : CallMatch} {values values' : NameMap Value}
  {ranges ranges' : NameMap ByteRange} {a : Action} {f : Param → Option Text}

theorem get?_values_reworded (hm : (standard kind).match? t = some m)
    (he : m.extract? = some (values, ranges)) (hn : (standard kind).match? n.text = some n)
    (he' : n.extract? = some (values', ranges')) (hr : Reworded f m n) :
    values'.names = values.names ∧
      ∀ name v, values'.get? name = some v ↔ ∃ x ∈ m.args, x.param.name = name ∧
        x.param.type.read? ((f x.param).getD x.literal) = some v := by
  constructor
  · obtain ⟨-, -, -, hperm⟩ := CallMatch.perm_values he (args_nodup hm)
    obtain ⟨-, -, -, hperm'⟩ := CallMatch.perm_values he' (args_nodup hn)
    have hnames := congrArg (List.map (·.name)) hr.params_eq
    simp only [List.map_map, Function.comp_def] at hnames
    refine (CallMatch.sorted_extract? he').1.names_eq (CallMatch.sorted_extract? he).1 fun name => ?_
    rw [hperm.mem_iff, hperm'.mem_iff, hnames]
  · intro name v
    rw [CallMatch.get?_values he' (args_nodup hn)]
    constructor
    · rintro ⟨y, hy, hname, hv⟩
      obtain ⟨x, hx, hp, hl⟩ := (hr.exists_argument_iff _ _).1 ⟨y, hy, rfl, rfl⟩
      exact ⟨x, hx, hp ▸ hname, by rw [hl, hp, hv]⟩
    · rintro ⟨x, hx, hname, hv⟩
      obtain ⟨y, hy, hp, hl⟩ := (hr.exists_argument_iff _ _).2 ⟨x, hx, rfl, rfl⟩
      exact ⟨y, hy, hp ▸ hname, by rw [hl, hp, hv]⟩

theorem exists_action_of_names (ha : Action.ofParams? kind values = some a)
    (hn : (standard kind).match? t = some n) (he : n.extract? = some (values', ranges'))
    (hnames : values'.names = values.names) :
    ∃ a', Action.ofParams? kind values' = some a' ∧ a'.params = values' := by
  have hcomplete : Complete values' (standard kind).params := by
    intro p hp
    rw [NameMap.contains_congr hnames]
    exact Action.complete_of_ofParams? ha p hp
  have htyped : ∀ p ∈ (standard kind).params, Action.Typed values' p.name p.type := by
    intro p hp v hv
    obtain ⟨y, hy, hname, hv⟩ := (CallMatch.get?_values he (args_nodup hn)).1 hv
    have hy := (laid_of_match? hn).params_isPrefix.subset (List.mem_map_of_mem hy)
    rw [← List.inj_on_of_nodup_map (names_nodup kind) hy hp hname]
    exact ValueType.type_of_read? hv
  obtain ⟨a', ha'⟩ := Option.isSome_iff_exists.1 (Action.isSome_ofParams? hcomplete htyped)
  exact ⟨a', ha', params_eq_values hn he ha'⟩

/-- A call with other literals writes the action with the values of these. -/
theorem exists_action_reworded (hm : (standard kind).match? t = some m)
    (he : m.extract? = some (values, ranges)) (ha : Action.ofParams? kind values = some a)
    (hn : (standard kind).match? n.text = some n) (hr : Reworded f m n)
    (hf : ∀ x ∈ m.args, ∀ l, f x.param = some l → (x.param.type.read? l).isSome = true) :
    ∃ values' ranges' a', n.extract? = some (values', ranges') ∧
      Action.ofParams? kind values' = some a' ∧ a'.params = values' ∧ values'.names = values.names ∧
      ∀ name v, values'.get? name = some v ↔ ∃ x ∈ m.args, x.param.name = name ∧
        x.param.type.read? ((f x.param).getD x.literal) = some v := by
  have hreads : ∀ x ∈ m.args, (x.param.type.read? ((f x.param).getD x.literal)).isSome = true := by
    intro x hx
    cases hl : f x.param with
    | some l => exact hf x hx l hl
    | none =>
      obtain ⟨read, hread, -, -⟩ := CallMatch.extract?_eq_some he
      have hmap := List.mem_map_of_mem (f := fun x : Argument => x.param.type.read? x.literal) hx
      rw [hread] at hmap
      obtain ⟨v, -, hv⟩ := List.mem_map.1 hmap
      rw [Option.getD_none, ← hv, Option.isSome_some]
  obtain ⟨values', ranges', he'⟩ := CallMatch.exists_extract? (m := n) fun y hy => by
    obtain ⟨x, hx, hp, hl⟩ := (hr.exists_argument_iff _ _).1 ⟨y, hy, rfl, rfl⟩
    rw [← hp, ← hl]
    exact hreads x hx
  obtain ⟨hnames, hget⟩ := get?_values_reworded hm he hn he' hr
  obtain ⟨a', ha', hparams⟩ := exists_action_of_names ha hn he' hnames
  exact ⟨values', ranges', a', he', ha', hparams, hnames, hget⟩

end

end CallShape

end RoutineSync
