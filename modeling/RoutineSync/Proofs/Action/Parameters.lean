import RoutineSync.Proofs.Action.NameMap
import RoutineSync.Proofs.Sync.Writable
/-!
The parameters of an action and the table of its kind: an action is made up from what stands under
the declared names, and tells the same again.
-/
set_option autoImplicit false

namespace RoutineSync

/-- The value as a parameter of the type takes it: an integer counts as a float. -/
def ValueType.accept? : ValueType → Value → Option Value
  | .float, v => v.float?.map .float
  | .int, v => v.int?.map .int
  | .bool, v => v.bool?.map .bool
  | .text, v => v.text?.map .text

theorem ValueType.accept?_type (v : Value) : v.type.accept? v = some v := by
  cases v <;> rfl

namespace CallShape

theorem mem_standard {kind : ActionKind} {p : Param} :
    p ∈ (standard kind).params ↔ p ∈ kind.declared := by
  simp only [standard, ofParams, List.mem_append, List.mem_filter, ← and_or_left]
  exact and_iff_left (by cases p.optional <;> simp)

end CallShape

namespace NameMap

theorem get?_append {α : Type} (name : String) (m n : NameMap α) :
    get? name (m ++ n) = (get? name m).or (get? name n) := by
  induction m with
  | nil => rfl
  | cons e r ih =>
    obtain ⟨k, b⟩ := e
    rw [List.cons_append, get?, get?, ih]
    split <;> rfl

end NameMap

namespace Action

theorem get?_entry {α : Type} (name other : String) (wrap : α → Value) (a : Option α) :
    NameMap.get? other (entry name wrap a) = if name = other then a.map wrap else none := by
  cases a with
  | none => simp [entry, NameMap.get?]
  | some v => rfl

section
variable {α : Type} {m : NameMap Value} {read? : Value → Option α} {wrap : α → Value} {name : String}

theorem get?_of_required {x : α} (h : required m read? name = some x) :
    ((m.get? name).bind fun v => (read? v).map wrap) = some (wrap x) := by
  obtain ⟨v, hv, hx⟩ := Option.bind_eq_some_iff.1 h
  rw [hv, Option.bind_some, hx, Option.map_some]

theorem get?_of_optional {x : Option α} (h : optional m read? name = some x) :
    ((m.get? name).bind fun v => (read? v).map wrap) = x.map wrap := by
  unfold optional at h
  cases hv : m.get? name with
  | none =>
    rw [hv] at h
    exact Option.some.inj h ▸ rfl
  | some v =>
    rw [hv] at h
    obtain ⟨y, hy, rfl⟩ := Option.map_eq_some_iff.1 h
    rw [Option.bind_some, hy]

end

theorem sorted_params (a : Action) : a.params.Sorted := by
  rw [NameMap.Sorted]
  cases a with
  | setPose p radians => cases radians <;> simp [params, entry, -String.lt_iff_ltb]
  | moveTo x y timeout maxSpeed log =>
    cases maxSpeed <;> cases log <;> simp [params, entry, -String.lt_iff_ltb]
  | turnTo x y timeout reversed maxSpeed log =>
    cases reversed <;> cases maxSpeed <;> cases log <;> simp [params, entry, -String.lt_iff_ltb]
  | follow filePath timeout lookahead reverse maxSpeed log =>
    cases reverse <;> cases maxSpeed <;> cases log <;> simp [params, entry, -String.lt_iff_ltb]
  | wait => exact List.pairwise_singleton _ _
  | _ => exact .nil

theorem exists_declared (a : Action) {name : String} (h : name ∈ a.params.names) :
    ∃ p ∈ a.kind.declared, p.name = name := by
  have hall : (a.params.names.all fun n => a.kind.declared.any fun p => p.name == n) = true := by
    cases a with
    | setPose p radians => cases radians <;> rfl
    | moveTo x y timeout maxSpeed log => cases maxSpeed <;> cases log <;> rfl
    | turnTo x y timeout reversed maxSpeed log =>
      cases reversed <;> cases maxSpeed <;> cases log <;> rfl
    | follow filePath timeout lookahead reverse maxSpeed log =>
      cases reverse <;> cases maxSpeed <;> cases log <;> rfl
    | _ => rfl
  obtain ⟨p, hp, hname⟩ := List.any_eq_true.1 (List.all_eq_true.1 hall name h)
  exact ⟨p, hp, eq_of_beq hname⟩

/-- An action tells under each declared name what it was made up from. -/
theorem get?_params {kind : ActionKind} {m : NameMap Value} {a : Action}
    (h : ofParams? kind m = some a) :
    ∀ p ∈ kind.declared, a.params.get? p.name = (m.get? p.name).bind p.type.accept? := by
  cases kind <;>
    simp only [ofParams?, Option.bind_eq_bind, Option.bind_eq_some_iff, Option.map_eq_some_iff,
      Option.pure_def, Option.some.injEq] at h <;>
    simp only [ActionKind.declared, Param.need, Param.may, List.forall_mem_cons, List.not_mem_nil,
      false_imp_iff, implies_true, and_true]
  case setPose =>
    obtain ⟨x, hx, y, hy, heading, hheading, radians, hradians, rfl⟩ := h
    simp only [params, NameMap.get?_append, get?_entry, NameMap.get?, reduceIte, String.reduceEq,
      Option.none_or, Option.or_none]
    exact ⟨(get?_of_required hx).symm, (get?_of_required hy).symm, (get?_of_required hheading).symm,
      (get?_of_optional hradians).symm⟩
  case moveTo =>
    obtain ⟨x, hx, y, hy, timeout, htimeout, maxSpeed, hspeed, log, hlog, rfl⟩ := h
    simp only [params, NameMap.get?_append, get?_entry, NameMap.get?, reduceIte, String.reduceEq,
      Option.none_or, Option.or_none]
    exact ⟨(get?_of_required hx).symm, (get?_of_required hy).symm, (get?_of_required htimeout).symm,
      (get?_of_optional hspeed).symm, (get?_of_optional hlog).symm⟩
  case turnTo =>
    obtain ⟨x, hx, y, hy, timeout, htimeout, reversed, hreversed, maxSpeed, hspeed, log, hlog, rfl⟩ := h
    simp only [params, NameMap.get?_append, get?_entry, NameMap.get?, reduceIte, String.reduceEq,
      Option.none_or, Option.or_none]
    exact ⟨(get?_of_required hx).symm, (get?_of_required hy).symm, (get?_of_required htimeout).symm,
      (get?_of_optional hreversed).symm, (get?_of_optional hspeed).symm, (get?_of_optional hlog).symm⟩
  case follow =>
    obtain ⟨path, hpath, timeout, htimeout, lookahead, hlookahead, reverse, hreverse, maxSpeed, hspeed, log,
      hlog, rfl⟩ := h
    simp only [params, NameMap.get?_append, get?_entry, NameMap.get?, reduceIte, String.reduceEq,
      Option.none_or, Option.or_none]
    exact ⟨(get?_of_required hpath).symm, (get?_of_required htimeout).symm,
      (get?_of_required hlookahead).symm, (get?_of_optional hreverse).symm, (get?_of_optional hspeed).symm,
      (get?_of_optional hlog).symm⟩
  case wait =>
    obtain ⟨milliseconds, hmilliseconds, rfl⟩ := h
    simp only [params, NameMap.get?, reduceIte]
    exact (get?_of_required hmilliseconds).symm

/-- From declared parameters of their types an action is made up that has these and no others. -/
theorem params_eq {kind : ActionKind} {m : NameMap Value} {a : Action} (h : ofParams? kind m = some a)
    (hm : m.Sorted)
    (hdeclared : ∀ e ∈ m, ∃ p ∈ kind.declared, p.name = e.1 ∧ e.2.type = p.type) : a.params = m := by
  obtain rfl := kind_of_ofParams? h
  refine a.sorted_params.ext hm fun name => ?_
  cases hv : m.get? name with
  | some v =>
    obtain ⟨p, hp, hname, htype⟩ := hdeclared _ (NameMap.mem_of_get? hv)
    obtain rfl : p.name = name := hname
    rw [get?_params h p hp, hv, Option.bind_some, ← htype]
    exact ValueType.accept?_type v
  | none =>
    refine NameMap.get?_eq_none_iff.2 fun hmem => ?_
    obtain ⟨p, hp, rfl⟩ := a.exists_declared hmem
    have hget := get?_params h p hp
    rw [hv, Option.bind_none, NameMap.get?_eq_none_iff] at hget
    exact hget hmem

end Action

end RoutineSync
