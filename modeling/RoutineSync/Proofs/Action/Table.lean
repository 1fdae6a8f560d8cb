import RoutineSync.Proofs.Action.Parameters
/-!
The table of a kind and the actions of that kind agree: an action is made up of exactly the maps that
give what the table declares, and its parameters are what the map has under the declared names.
-/
set_option autoImplicit false

namespace RoutineSync

namespace ValueType
variable {type : ValueType} {v w : Value}

/-- Whether a parameter takes a value: one of its type, and for a float an integer too. -/
def Takes (type : ValueType) (v : Value) : Prop := v.type = type ∨ type = .float ∧ v.type = .int

instance decidableTakes (type : ValueType) (v : Value) : Decidable (type.Takes v) :=
  inferInstanceAs (Decidable (_ ∨ _))

/-- The value that a parameter has then: the integer becomes a float. -/
def widen : ValueType → Value → Value
  | .float, .int n => .float (.ofInt n.toInt)
  | _, v => v

theorem accept?_eq_some_iff : type.accept? v = some w ↔ type.Takes v ∧ w = type.widen v := by
  cases type <;> cases v <;>
    simp [accept?, Takes, widen, Value.type, Value.float?, Value.int?, Value.bool?, Value.text?, eq_comm]

theorem exists_float?_iff : (∃ x, v.float? = some x) ↔ float.Takes v := by
  cases v <;> simp [Takes, Value.type, Value.float?]

theorem exists_int?_iff : (∃ x, v.int? = some x) ↔ int.Takes v := by
  cases v <;> simp [Takes, Value.type, Value.int?]

theorem exists_bool?_iff : (∃ x, v.bool? = some x) ↔ bool.Takes v := by
  cases v <;> simp [Takes, Value.type, Value.bool?]

theorem exists_text?_iff : (∃ x, v.text? = some x) ↔ text.Takes v := by
  cases v <;> simp [Takes, Value.type, Value.text?]

end ValueType

/-- A map gives a parameter what it asks for: a value if it is required, and no value that it does not
take. -/
def Param.GivenBy (p : Param) (m : NameMap Value) : Prop :=
  (p.optional = false → (m.get? p.name).isSome = true) ∧ ∀ v, m.get? p.name = some v → p.type.Takes v

instance Param.decidableGivenBy (p : Param) (m : NameMap Value) : Decidable (p.GivenBy m) :=
  match h : m.get? p.name with
  | none => decidable_of_iff (p.optional = true) (by simp [GivenBy, h])
  | some v => decidable_of_iff (p.type.Takes v) (by simp [GivenBy, h])

namespace Action
variable {α : Type} {m : NameMap Value} {read? : Value → Option α} {type : ValueType} {name : String}

theorem exists_required_iff (hread : ∀ v, (∃ x, read? v = some x) ↔ type.Takes v) :
    (∃ x, required m read? name = some x) ↔ (Param.need name type).GivenBy m := by
  rw [required, Param.GivenBy, Param.need]
  cases m.get? name with
  | none => simp
  | some v => simpa using hread v

theorem exists_optional_iff {default : Value}
    (hread : ∀ v, (∃ x, read? v = some x) ↔ default.type.Takes v) :
    (∃ x, optional m read? name = some x) ↔ (Param.may name default).GivenBy m := by
  rw [optional, Param.GivenBy, Param.may]
  cases m.get? name with
  | none => simp
  | some v => simpa using hread v

theorem exists_ofParams?_iff {kind : ActionKind} :
    (∃ a, ofParams? kind m = some a) ↔ ∀ p ∈ kind.declared, p.GivenBy m := by
  have hfloat : ∀ name, (Param.need name .float).GivenBy m ↔
      ∃ x, required m Value.float? name = some x :=
    fun _ => (exists_required_iff fun _ => ValueType.exists_float?_iff).symm
  have hint : ∀ name, (Param.need name .int).GivenBy m ↔
      ∃ n, required m Value.int? name = some n :=
    fun _ => (exists_required_iff fun _ => ValueType.exists_int?_iff).symm
  have htext : ∀ name, (Param.need name .text).GivenBy m ↔
      ∃ t, required m Value.text? name = some t :=
    fun _ => (exists_required_iff fun _ => ValueType.exists_text?_iff).symm
  have hspeed : ∀ name x, (Param.may name (.float x)).GivenBy m ↔
      ∃ x, optional m Value.float? name = some x :=
    fun _ _ => (exists_optional_iff fun _ => ValueType.exists_float?_iff).symm
  have hflag : ∀ name b, (Param.may name (.bool b)).GivenBy m ↔
      ∃ b, optional m Value.bool? name = some b :=
    fun _ _ => (exists_optional_iff fun _ => ValueType.exists_bool?_iff).symm
  cases kind <;>
    simp [ActionKind.declared, ofParams?, hfloat, hint, htext, hspeed, hflag, Option.bind_eq_some_iff]

end Action

namespace CallShape
variable {s : CallShape} {m : NameMap Value}

/-- The part of a map that a call of the shape has parameters for, with the values that they have
then. -/
def restrict (s : CallShape) (m : NameMap Value) : NameMap Value :=
  m.filterMap fun e => (s.param? e.1).map fun p => (e.1, p.type.widen e.2)

theorem get?_restrict (s : CallShape) (m : NameMap Value) (name : String) :
    (s.restrict m).get? name
      = (m.get? name).bind fun v => (s.param? name).map fun p => p.type.widen v := by
  induction m with
  | nil => rfl
  | cons e m ih =>
    obtain ⟨n, v⟩ := e
    rw [restrict, List.filterMap_cons, NameMap.get?]
    cases hp : s.param? n with
    | none =>
      refine ih.trans ?_
      by_cases hn : n = name
      · simp [← hn, hp]
      · rw [if_neg hn]
    | some p =>
      rw [Option.map_some, NameMap.get?]
      by_cases hn : n = name
      · simp [← hn, hp]
      · rw [if_neg hn, if_neg hn]
        exact ih

theorem sorted_restrict (hm : m.Sorted) : (s.restrict m).Sorted := by
  refine List.Pairwise.filterMap _ (fun e f hlt e' he f' hf => ?_) hm
  obtain ⟨p, -, rfl⟩ := Option.map_eq_some_iff.1 he
  obtain ⟨q, -, rfl⟩ := Option.map_eq_some_iff.1 hf
  exact hlt

/-- What a shape asks for is in a map. -/
def GivenBy (s : CallShape) (m : NameMap Value) : Prop := ∀ p ∈ s.params, p.GivenBy m

instance decidableGivenBy (s : CallShape) (m : NameMap Value) : Decidable (s.GivenBy m) :=
  inferInstanceAs (Decidable (∀ p ∈ s.params, p.GivenBy m))

end CallShape

namespace Action
open CallShape (standard)
variable {kind : ActionKind} {m : NameMap Value} {a : Action}

theorem exists_ofParams?_iff_standard :
    (∃ a, ofParams? kind m = some a) ↔ (standard kind).GivenBy m := by
  rw [exists_ofParams?_iff, CallShape.GivenBy]
  simp only [CallShape.mem_standard]

theorem params_eq_restrict (h : ofParams? kind m = some a) (hm : m.Sorted) :
    a.params = (standard kind).restrict m := by
  refine a.sorted_params.ext (CallShape.sorted_restrict hm) fun name => ?_
  rw [CallShape.get?_restrict]
  cases hp : (standard kind).param? name with
  | none =>
    have hnone : a.params.get? name = none := by
      refine NameMap.get?_eq_none_iff.2 fun hmem => ?_
      obtain ⟨p, hdeclared, hname⟩ := a.exists_declared hmem
      rw [kind_of_ofParams? h, ← CallShape.mem_standard] at hdeclared
      exact List.find?_eq_none.1 hp p hdeclared (beq_iff_eq.2 hname)
    rw [hnone]
    cases m.get? name <;> rfl
  | some p =>
    have hdeclared := CallShape.mem_standard.1 (List.mem_of_find?_eq_some hp)
    have hname := List.find?_some hp
    obtain rfl : p.name = name := eq_of_beq hname
    rw [get?_params h p hdeclared]
    have hgiven := (exists_ofParams?_iff.1 ⟨a, h⟩ p hdeclared).2
    refine Option.bind_congr fun v hv => ?_
    exact ValueType.accept?_eq_some_iff.2 ⟨hgiven v hv, rfl⟩

/-- From a map an action of a kind is made up exactly if the map has all that the kind's calls require
and nothing of another type under a declared name; its parameters then are the map's under the
declared names, integers made floats where these are declared. From its own parameters every action
is made up again. -/
theorem ofParams?_iff_table (kind : ActionKind) (m : NameMap Value) (hm : m.Sorted) :
    ((∃ a, ofParams? kind m = some a) ↔ (standard kind).GivenBy m) ∧
      (∀ a, ofParams? kind m = some a → a.kind = kind ∧ a.params = (standard kind).restrict m) ∧
      ∀ a : Action, ofParams? a.kind a.params = some a := by
  refine ⟨exists_ofParams?_iff_standard, fun a h => ?_, ofParams?_params⟩
  exact ⟨kind_of_ofParams? h, params_eq_restrict h hm⟩

/-- A map with an integer for a float, an optional parameter and a name that is not declared. -/
def looseMap : NameMap Value :=
  [("heading", .float .zero), ("log", .int 1), ("radians", .bool true), ("x", .int 3), ("y", .int 4)]

theorem ofParams?_iff_table_loose :
    NameMap.Sorted looseMap ∧ ∃ a, ofParams? .setPose looseMap = some a ∧ a.kind = .setPose ∧
      a.params = [("heading", .float .zero), ("radians", .bool true), ("x", .float (.ofInt 3)),
        ("y", .float (.ofInt 4))] := by
  have hm : NameMap.Sorted looseMap := by
    rw [NameMap.Sorted]
    decide +kernel
  obtain ⟨hiff, hparams, -⟩ := ofParams?_iff_table .setPose looseMap hm
  obtain ⟨a, ha⟩ := hiff.2 (by decide +kernel)
  obtain ⟨hkind, heq⟩ := hparams a ha
  exact ⟨hm, a, ha, hkind, heq.trans (by decide +kernel)⟩

end Action

end RoutineSync
