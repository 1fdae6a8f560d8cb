import RoutineSync.Proofs.Call.Arguments
import RoutineSync.Proofs.Call.Quoted
import RoutineSync.Proofs.Sync.Synthesis
/-!
When an edit can be written: its range fits, and every value of the steps that it installs has a
literal.
-/
set_option autoImplicit false

namespace RoutineSync

namespace Action
open CallShape

theorem contains_of_required {α : Type} {m : NameMap Value} {read? : Value → Option α}
    {name : String} {x : α} (h : required m read? name = some x) : m.contains name = true := by
  obtain ⟨v, hv, -⟩ := Option.bind_eq_some_iff.1 h
  simp [NameMap.contains, hv]

theorem complete_of_ofParams? {kind : ActionKind} {m : NameMap Value} {a : Action}
    (h : ofParams? kind m = some a) : Complete m (CallShape.standard kind).params := by
  have hcontains := @contains_of_required
  cases kind <;>
    simp only [ofParams?, Option.bind_eq_bind, Option.bind_eq_some_iff, Option.map_eq_some_iff] at h <;>
    simp [Complete, CallShape.standard, ofParams, ActionKind.declared, Param.need, Param.may] <;> grind

def Writable (a : Action) : Prop := ∀ e ∈ a.params, e.2.isWritable = true

/-- Whether no number among the parameters is infinite or not a number. -/
def Finite (a : Action) : Prop := ∀ e ∈ a.params, ∀ x, e.2 = .float x → x.isFinite = true

theorem writable_iff {a : Action} : a.Writable ↔ a.Finite ∧ a.Quotable := by
  simp only [Writable, Finite, Quotable, texts, List.mem_filterMap, forall_exists_index, and_imp]
  constructor
  · intro h
    refine ⟨fun e he x hx => ?_, fun cs e he hcs => ?_⟩
    · simpa [hx, Value.isWritable] using h e he
    · have := h e he
      cases hv : e.2 <;> simp_all [Value.text?, Value.isWritable]
  · rintro ⟨hfinite, hquotable⟩ e he
    cases hv : e.2 with
    | float x => exact hfinite e he x hv
    | text cs => exact hquotable cs e he (by rw [hv]; rfl)
    | int n => rfl
    | bool b => rfl

theorem checkWritable_eq_ok_iff {a : Action} : a.checkWritable = .ok () ↔ a.Writable := by
  unfold checkWritable
  cases h : a.params.find? fun e => !e.2.isWritable with
  | some e =>
    have := List.find?_some h
    simp only [Bool.not_eq_true'] at this
    refine ⟨nofun, fun hw => ?_⟩
    simp [hw e (List.mem_of_find?_eq_some h)] at this
  | none => simpa [Writable] using h

def written (a : Action) : CallText :=
  (CallText.putAll true ⟨("auton::" ++ a.kind.callName ++ "(").toList, []⟩
    (filled a.params (CallShape.standard a.kind).params)).close

theorem writeAction?_eq (a : Action) :
    (CallShape.standard a.kind).writeAction? a = some a.written :=
  (if_pos rfl).trans (write?_eq (complete_of_ofParams? a.ofParams?_params))

theorem generate_eq_ok_iff {a : Action} {c : CallText} :
    a.generate = .ok c ↔ a.Writable ∧ c = a.written := by
  rw [generate, Result.check_eq_ok_iff, checkWritable_eq_ok_iff, writeAction?_eq]
  exact and_congr_right fun _ => Result.pure_eq_ok_iff.trans eq_comm

end Action

/-- A call is patched, or written anew, exactly where the values have literals. -/
theorem CallSite.exists_patchTo_iff {s : CallSite} {before after : Action} :
    (∃ x, s.patchTo before after = .ok x) ↔ after.Writable := by
  constructor
  · rintro ⟨x, h⟩
    obtain ⟨_, hw, -⟩ := Result.run_bind_eq_ok_iff.1 h
    exact Action.checkWritable_eq_ok_iff.1 hw
  · intro h
    have hw := Action.checkWritable_eq_ok_iff.2 h
    have hcall := Action.generate_eq_ok_iff.2 ⟨h, rfl⟩
    cases hk : (Operations.plain.kept s before after).run with
    | some result =>
      exact ⟨result, Result.run_bind_eq_ok_iff.2 ⟨(), hw, Result.run_bind_eq_ok_iff.2
        ⟨some result, congrArg Except.ok hk, rfl⟩⟩⟩
    | none =>
      exact ⟨_, Result.run_bind_eq_ok_iff.2 ⟨(), hw, Result.run_bind_eq_ok_iff.2
        ⟨none, congrArg Except.ok hk, Result.run_bind_eq_ok_iff.2 ⟨_, hcall, rfl⟩⟩⟩⟩

namespace Rewrite

theorem exists_mapM_iff {ε α β : Type} {f : α → Except ε β} {xs : List α} :
    (∃ ys, xs.mapM f = .ok ys) ↔ ∀ x ∈ xs, ∃ y, f x = .ok y := by
  induction xs with
  | nil => simp [pure, Except.pure]
  | cons x xs ih =>
    rw [List.forall_mem_cons, ← ih, List.mapM_cons]
    cases f x <;> cases xs.mapM f <;> simp [bind, Except.bind, pure, Except.pure]

theorem exists_filterMapM_iff {ε α β : Type} {f : α → Except ε (Option β)} {xs : List α} :
    (∃ ys, xs.filterMapM f = .ok ys) ↔ ∀ x ∈ xs, ∃ y, f x = .ok y := by
  induction xs with
  | nil => simp [pure, Except.pure]
  | cons x xs ih =>
    rw [List.forall_mem_cons, ← ih, List.filterMapM_cons]
    cases f x with
    | error e => simp [bind, Except.bind]
    | ok y => cases y <;> cases xs.filterMapM f <;> simp [bind, Except.bind, pure, Except.pure]

theorem exists_writeRun_iff {lead trail : Text} {ss : List Step} {text : Text}
    {placed : List Placed} :
    (∃ p, writeRun lead trail ss text placed = .ok p) ↔ ∀ s ∈ ss, s.action.Writable := by
  induction ss generalizing text placed with
  | nil => simp [writeRun, pure, Except.pure]
  | cons s ss ih =>
    rw [List.forall_mem_cons, writeRun]
    by_cases h : s.action.Writable
    · rw [Action.generate_eq_ok_iff.2 ⟨h, rfl⟩]
      simpa [bind, Except.bind, h] using ih
    · simp only [h, false_and, iff_false, not_exists]
      intro p hp
      obtain ⟨c, hc, -⟩ := Result.bind_eq_ok_iff.1 hp
      exact h (Action.generate_eq_ok_iff.1 hc).1

theorem exists_insertion_iff {source : Source} {run : List Step} {next previous : Option CallSite} :
    (∃ p, insertion source run next previous = .ok p) ↔ ∀ s ∈ run, s.action.Writable := by
  obtain ⟨⟨place, head, lead, trail⟩, hframe⟩ :
      ∃ x, (source.access.frame next previous : Id _).run = x := ⟨_, rfl⟩
  rw [insertion_of_frame hframe, ← @exists_writeRun_iff lead trail run head []]
  cases writeRun lead trail run head [] <;> simp [Except.map]

theorem exists_patching_iff {replaced : List Step} {ss : List Step} {z : Step × Option Nat}
    (hz : z ∈ ss.zip (pairs 0 ss replaced)) :
    (∃ y, patching replaced z = .ok y) ↔ (z.2.isSome = true → z.1.action.Writable) := by
  obtain ⟨s, o⟩ := z
  cases o with
  | none => exact ⟨fun _ h => absurd h Bool.false_ne_true, fun _ => ⟨none, rfl⟩⟩
  | some k =>
    obtain ⟨-, old, hold, -, -, hsite⟩ := exists_of_mem_pairs hz
    obtain ⟨site, hsite⟩ := Option.isSome_iff_exists.1 hsite
    rw [Nat.sub_zero] at hold
    rw [patching_of_sited hold hsite, ← @CallSite.exists_patchTo_iff site old.action]
    cases site.patchTo old.action s.action <;> simp [Except.map]

theorem exists_synthesize_iff {steps : List Step} {e : RoutineEdit} {source : Source} :
    (∃ r, synthesize steps e source = .ok r) ↔
      e.index + e.count ≤ steps.length ∧ ∀ s ∈ e.steps, s.action.Writable := by
  rw [synthesize_eq]
  dsimp only
  let replaced := (steps.drop e.index).take e.count
  let zs := e.steps.zip (pairs 0 e.steps replaced)
  have hzs : zs.map (·.1) = e.steps := List.map_fst_zip (Nat.le_of_eq (length_pairs 0 _ _).symm)
  -- the paired steps are patched, the others are in the runs
  have hall : (∀ s ∈ e.steps, s.action.Writable) ↔
      (∀ z ∈ zs, z.2.isSome = true → z.1.action.Writable) ∧
        ∀ run ∈ runs none zs [], ∀ s ∈ run.2.1, s.action.Writable := by
    have hruns := flatMap_runs none zs []
    have hmem : ∀ s, (∃ run ∈ runs none zs [], s ∈ run.2.1) ↔ ∃ z ∈ zs, z.2.isSome = false ∧ z.1 = s := by
      intro s
      rw [← List.mem_flatMap, hruns]
      simp
    rw [← hzs]
    constructor
    · intro h
      refine ⟨fun z hz _ => h z.1 (List.mem_map.2 ⟨z, hz, rfl⟩), fun run hrun s hs => ?_⟩
      obtain ⟨z, hz, -, rfl⟩ := (hmem s).1 ⟨run, hrun, hs⟩
      exact h z.1 (List.mem_map.2 ⟨z, hz, rfl⟩)
    · rintro ⟨hpaired, hnew⟩ s hs
      obtain ⟨z, hz, rfl⟩ := List.mem_map.1 hs
      by_cases ho : z.2.isSome = true
      · exact hpaired z hz ho
      · obtain ⟨run, hrun, hs⟩ := (hmem z.1).2 ⟨z, hz, by simpa using ho, rfl⟩
        exact hnew run hrun z.1 hs
  rw [hall, Result.exists_check_eq_ok_iff, Result.mapError_eq_ok_iff, checkRange_eq_ok_iff]
  simp only [Result.exists_bind_eq_ok_iff, Result.pure_eq_ok_iff, exists_eq', and_true,
    exists_and_right, exists_filterMapM_iff, exists_mapM_iff, inserting, exists_insertion_iff]
  exact and_congr_right fun _ => and_congr_left fun _ => forall₂_congr fun z hz =>
    exists_patching_iff hz

end Rewrite

end RoutineSync
