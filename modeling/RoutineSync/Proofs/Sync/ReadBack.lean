import RoutineSync.Proofs.Action.Table
import RoutineSync.Proofs.Call.Sources
import RoutineSync.Proofs.Call.Steady
/-!
A call that is written is read back: it is found as a call of its kind, with the values and the
ranges that were written.
-/
set_option autoImplicit false

namespace RoutineSync

namespace NameMap

theorem isSome_get?_of_mem {α : Type} {name : String} {v : α} {m : NameMap α}
    (h : (name, v) ∈ m) : (m.get? name).isSome = true := by
  induction m with
  | nil => cases h
  | cons e r ih =>
    obtain ⟨n, w⟩ := e
    rw [get?]
    split
    · rfl
    · rename_i hne
      rcases List.mem_cons.1 h with h | h
      · exact absurd (Prod.mk.inj h).1.symm hne
      · exact ih h

end NameMap

namespace CallShape

theorem mem_filled_of_get? {values : NameMap Value} {ps : List Param} {p : Param} {v : Value}
    (hp : p ∈ ps) (hv : values.get? p.name = some v) : (p, v) ∈ filled values ps := by
  induction ps with
  | nil => cases hp
  | cons q ps ih =>
    rcases List.mem_cons.1 hp with rfl | hp
    · simp [filled, hv]
    · rw [filled]
      split
      · exact List.mem_cons_of_mem _ (ih hp)
      · rw [if_pos (List.any_eq_true.2 ⟨p, hp, by simp [NameMap.contains, hv]⟩)]
        exact List.mem_append_right _ (ih hp)

theorem default_sound {kind : ActionKind} {p : Param} (hp : p ∈ (standard kind).params) {v : Value}
    (hv : p.default = some v) : v.type = p.type ∧ v.isWritable = true := by
  have hall : ∀ kind ∈ ActionKind.all, ∀ p ∈ (standard kind).params, ∀ v ∈ p.default,
      v.type = p.type ∧ v.isWritable = true := by decide +kernel
  exact hall kind (ActionKind.mem_all _) p hp v hv

end CallShape

namespace Action
open CallShape (Complete standard ofParams names_nodup value_of_mem_filled mem_filled_of_get?
  default_sound)

def Typed (m : NameMap Value) (name : String) (t : ValueType) : Prop :=
  ∀ v, m.get? name = some v → v.type = t

/-- An action is made up from parameters that can be written as a call of its kind. -/
theorem isSome_ofParams? {kind : ActionKind} {m : NameMap Value}
    (hcomplete : Complete m (standard kind).params)
    (htype : ∀ p ∈ (standard kind).params, Typed m p.name p.type) :
    (ofParams? kind m).isSome = true := by
  rw [Option.isSome_iff_exists, exists_ofParams?_iff_standard]
  intro p hp
  refine ⟨fun ho => ?_, fun v hv => .inl (htype p hp v hv)⟩
  have hcontains := hcomplete p hp
  rwa [ho, if_neg Bool.false_ne_true] at hcontains

def filledParams (a : Action) : NameMap Value :=
  .ofList ((CallShape.filled a.params (standard a.kind).params).map fun e => (e.1.name, e.2))

/-- The action with its parameters as the call writes them: before one that is given, those that are
left out have their defaults. -/
def filled (a : Action) : Action := (ofParams? a.kind a.filledParams).getD a

theorem nodup_filled (a : Action) :
    ((CallShape.filled a.params (standard a.kind).params).map (·.1.name)).Nodup := by
  have hwritten := List.take_sublist ((standard a.kind).writtenCount a.params)
    (standard a.kind).params
  rw [← CallShape.map_filled_eq_take (complete_of_ofParams? a.ofParams?_params)] at hwritten
  simpa [Function.comp_def] using
    (hwritten.map (·.name)).nodup (names_nodup a.kind)

theorem get?_filledParams (a : Action) (name : String) :
    a.filledParams.get? name = NameMap.get? name
      ((CallShape.filled a.params (standard a.kind).params).map fun e => (e.1.name, e.2)) :=
  NameMap.get?_ofList (by simpa [Function.comp_def] using a.nodup_filled) name

theorem typed_params (a : Action) {p : Param} (hp : p ∈ (standard a.kind).params) :
    Typed a.params p.name p.type := by
  have hall : ((standard a.kind).params.all fun p =>
      (a.params.get? p.name).all fun v => v.type == p.type) = true := by
    cases a with
    | setPose pose radians => cases radians <;> rfl
    | moveTo x y timeout maxSpeed log => cases maxSpeed <;> cases log <;> rfl
    | turnTo x y timeout reversed maxSpeed log =>
      cases reversed <;> cases maxSpeed <;> cases log <;> rfl
    | follow filePath timeout lookahead reverse maxSpeed log =>
      cases reverse <;> cases maxSpeed <;> cases log <;> rfl
    | _ => rfl
  intro v hv
  have := List.all_eq_true.1 hall p hp
  rw [hv] at this
  exact eq_of_beq this

theorem type_of_mem_filled {a : Action} {e : Param × Value}
    (he : e ∈ CallShape.filled a.params (standard a.kind).params) : e.2.type = e.1.type := by
  obtain ⟨hp, hv⟩ := value_of_mem_filled he
  rcases Option.or_eq_some_iff.1 hv with hv | ⟨-, hv⟩
  · exact a.typed_params hp _ hv
  · exact (default_sound hp hv).1

theorem typed_filledParams (a : Action) {p : Param} (hp : p ∈ (standard a.kind).params) :
    Typed a.filledParams p.name p.type := by
  intro v hv
  rw [a.get?_filledParams] at hv
  obtain ⟨e, he, heq⟩ := List.mem_map.1 (NameMap.mem_of_get? hv)
  obtain ⟨hname, rfl⟩ := Prod.mk.inj heq
  rw [← List.inj_on_of_nodup_map (names_nodup a.kind) (value_of_mem_filled he).1 hp hname]
  exact type_of_mem_filled he

theorem complete_filledParams (a : Action) : Complete a.filledParams (standard a.kind).params := by
  intro p hp
  have hcomplete := complete_of_ofParams? a.ofParams?_params p hp
  by_cases ho : p.optional = true
  · rwa [if_pos ho] at hcomplete ⊢
  · rw [if_neg ho] at hcomplete ⊢
    obtain ⟨v, hv⟩ := Option.isSome_iff_exists.1 hcomplete
    rw [NameMap.contains, a.get?_filledParams]
    exact NameMap.isSome_get?_of_mem (List.mem_map.2 ⟨_, mem_filled_of_get? hp hv, rfl⟩)

theorem ofParams?_filled (a : Action) : ofParams? a.kind a.filledParams = some a.filled := by
  obtain ⟨b, hb⟩ := Option.isSome_iff_exists.1 (isSome_ofParams? a.complete_filledParams
    fun _ hp => a.typed_filledParams hp)
  simp [filled, hb]

end Action

namespace CallShape

/-- Whether an argument can be written for its parameter. -/
structure Sound (e : Param × Value) : Prop where
  type_eq : e.2.type = e.1.type
  writable : e.2.isWritable = true

theorem sound_of_mem_filled {a : Action} (ha : a.Writable) {e : Param × Value}
    (he : e ∈ filled a.params (standard a.kind).params) : Sound e := by
  obtain ⟨hp, hv⟩ := value_of_mem_filled he
  refine ⟨Action.type_of_mem_filled he, ?_⟩
  rcases Option.or_eq_some_iff.1 hv with hv | ⟨-, hv⟩
  · exact ha _ (NameMap.mem_of_get? hv)
  · exact (default_sound hp hv).2

def argumentsMatch : Bool → List (Param × Value) → CallMatch
  | _, [] => ⟨");".toList, []⟩
  | first, e :: es =>
    ((argumentsMatch false es).afterArgument e.1 e.2.source).after (if first then [] else [',', ' '])

theorem text_argumentsMatch (first : Bool) (es : List (Param × Value)) :
    (argumentsMatch first es).text = argumentsText first es ++ ");".toList := by
  induction es generalizing first with
  | nil => rfl
  | cons e es ih =>
    simp [argumentsMatch, argumentsText, CallMatch.afterArgument, CallMatch.after, ih]

theorem exists_ends (es : List (Param × Value)) (r : Text) :
    ∃ d r', (argumentsMatch false es).text ++ r = d :: r' ∧ Literal.Ends d := by
  cases es with
  | nil => exact ⟨')', _, rfl, .inr rfl⟩
  | cons e es => exact ⟨',', _, rfl, .inl rfl⟩

section
variable {p : Piece} {g : Grammar}

theorem read_piece {k : Reader} {a r : Text} (hsplit : p.split? (a ++ r) = some (a, r))
    (hsolid : ∃ c x, a = c :: x ∧ Text.Solid c) :
    Gap.read (p.read k) .between (a ++ r) = (k r).map (p.before a) := by
  obtain ⟨c, x, rfl, hc⟩ := hsolid
  rw [List.cons_append] at hsplit ⊢
  rw [Gap.read_solid hc, Piece.read, hsplit]
  rfl

theorem read_token {k : Reader} {w r : Text} (hw : ∃ c x, w = c :: x ∧ Text.Solid c) :
    Gap.read ((Piece.token w).read k) .between (w ++ r) = (k r).map (.after w) :=
  read_piece (Piece.split?_token w r) hw

theorem read_separator (t : Text) :
    (Grammar.piece (.token [',']) (.piece p g)).read .stop ([',', ' '] ++ t)
      = ((Grammar.piece p g).read .stop t).map (.after [',', ' ']) := by
  have hblank : (Grammar.piece p g).read .stop (' ' :: t)
      = ((Grammar.piece p g).read .stop t).map (.after [' ']) :=
    Gap.read_blanks (List.forall_mem_singleton.2 (by decide)) t
  refine (read_token ⟨_, _, rfl, by decide, by decide⟩ (r := ' ' :: t)).trans ?_
  rw [hblank, Option.map_map]
  rfl

theorem read_closing (r : Text) : closing.read .stop (");".toList ++ r) = some ⟨");".toList, []⟩ := by
  have hlast : (Grammar.piece (.token [';']) .done).read .stop ([';'] ++ r) = some ⟨[';'], []⟩ :=
    read_token ⟨_, _, rfl, by decide, by decide⟩
  refine (read_token ⟨_, _, rfl, by decide, by decide⟩ (r := [';'] ++ r)).trans ?_
  rw [hlast]
  rfl

theorem read_bracket_none {k : Reader} (h : ∀ r, p.split? (')' :: r) = none) (r : Text) :
    Gap.read (p.read k) .between (')' :: r) = none := by
  rw [Gap.read_solid ⟨by decide, by decide⟩, Piece.read, h]
  rfl

end

section
variable {ps : List Param}

theorem read_argument {p : Param} {v : Value} (hs : Sound (p, v)) {m : CallMatch} {r : Text}
    (hends : ∃ d r', m.text ++ r = d :: r' ∧ Literal.Ends d)
    (honward : (arguments false ps).read .stop (m.text ++ r) = some m) :
    (Grammar.piece (.literal p) (arguments false ps)).read .stop (v.source ++ (m.text ++ r))
      = some (m.afterArgument p v.source) := by
  obtain ⟨htype, hwritable⟩ := hs
  obtain ⟨d, r', hr, hd⟩ := hends
  have hsplit : (Piece.literal p).split? (v.source ++ d :: r') = some (v.source, d :: r') := by
    have := Value.literal?_source hwritable hd r'
    rwa [htype] at this
  have hsolid := (Piece.quiet_literal p).solid v.source ⟨_, _, hsplit⟩
  rw [← hr] at hsplit
  show Gap.read ((Piece.literal p).read _) .between _ = _
  rw [read_piece hsplit hsolid, honward]
  rfl

/-- Arguments for the first parameters are read, where the other ones may be left out. -/
theorem read_arguments (first : Bool) {es : List (Param × Value)} (hs : ∀ e ∈ es, Sound e)
    {rest : List Param} (hrest : ∀ p ∈ rest, p.optional = true) (r : Text) :
    (arguments first (es.map (·.1) ++ rest)).read .stop ((argumentsMatch first es).text ++ r)
      = some (argumentsMatch first es) := by
  induction es generalizing first with
  | nil =>
    cases rest with
    | nil => exact read_closing r
    | cons p ps =>
      let argument := Grammar.piece (.literal p) (arguments false ps)
      let separated := if first then argument else .piece (.token [',']) argument
      have hnone : separated.read .stop (')' :: (';' :: r)) = none := by
        cases first with
        | true => exact read_bracket_none (p := .literal p) (literal?_bracket p.type) _
        | false => exact read_bracket_none (fun _ => rfl) _
      have hgrammar : arguments first (p :: ps) = .either separated closing :=
        if_pos (hrest p List.mem_cons_self)
      rw [List.map_nil, List.nil_append, hgrammar]
      show (separated.read .stop (')' :: (';' :: r))).or (closing.read .stop (");".toList ++ r)) = _
      rw [hnone, read_closing]
      rfl
  | cons e es ih =>
    obtain ⟨p, v⟩ := e
    rw [List.forall_mem_cons] at hs
    let argument := Grammar.piece (.literal p) (arguments false (es.map (·.1) ++ rest))
    let separated := if first then argument else .piece (.token [',']) argument
    have hgrammar : arguments first (p :: (es.map (·.1) ++ rest))
        = if p.optional then .either separated closing else separated := rfl
    have hargument := read_argument hs.1 (exists_ends es r) (ih false hs.2)
    have hseparated : separated.read .stop ((argumentsMatch first ((p, v) :: es)).text ++ r)
        = some (argumentsMatch first ((p, v) :: es)) := by
      cases first with
      | true =>
        show argument.read .stop ((v.source ++ (argumentsMatch false es).text) ++ r) = _
        rw [List.append_assoc]
        exact hargument
      | false =>
        show (Grammar.piece (.token [',']) argument).read .stop ([',', ' '] ++
          (v.source ++ (argumentsMatch false es).text) ++ r) = _
        rw [List.append_assoc, List.append_assoc, read_separator, hargument]
        rfl
    rw [List.map_cons, List.cons_append, hgrammar]
    split
    · show (separated.read .stop _).or _ = _
      rw [hseparated]
      rfl
    · exact hseparated

theorem foldlM_argumentsMatch {m : CallMatch} {first : Bool} {es : List (Param × Value)}
    (c : CallText) (vs : NameMap Value) (hs : ∀ e ∈ es, Sound e)
    (hm : m.text = c.text ++ (argumentsMatch first es).text) :
    (argumentsMatch first es).args.foldlM (fun (values, ranges) a => do
        let v ← a.param.type.read? a.literal
        return (values.insert a.param.name v, ranges.insert a.param.name (m.argumentRange a)))
        (vs, c.params)
      = some (es.foldl (fun vs e => vs.insert e.1.name e.2) vs, (CallText.putAll first c es).params) := by
  induction es generalizing first c vs with
  | nil => rfl
  | cons e es ih =>
    rw [List.forall_mem_cons] at hs
    let lead : Text := if first then [] else [',', ' ']
    let c₀ : CallText := if first then c else { c with text := c.text ++ [',', ' '] }
    let onward := e.2.source ++ (argumentsMatch false es).text
    have hread : e.1.type.read? e.2.source = some e.2 := by
      rw [← hs.1.type_eq]
      exact Value.read?_source hs.1.writable
    have hc : c₀.text = c.text ++ lead ∧ c₀.params = c.params := by
      cases first with
      | true => exact ⟨(List.append_nil _).symm, rfl⟩
      | false => exact ⟨rfl, rfl⟩
    have htext : m.text = c₀.text ++ onward := by
      rw [hc.1, List.append_assoc]
      exact hm
    have hrange : m.argumentRange ⟨e.1, e.2.source, onward⟩ = ⟨c₀.text.size, (c₀.put e).text.size⟩ := by
      have hsize := congrArg Text.size htext
      simp only [Text.size_append] at hsize
      simp only [CallMatch.argumentRange, CallText.put, Text.size_append, ByteRange.mk.injEq]
      omega
    have honward := ih (c₀.put e) (vs.insert e.1.name e.2) hs.2 (htext.trans (List.append_assoc _ _ _).symm)
    show (((e.1.type.read? e.2.source).bind fun v => some (vs.insert e.1.name v,
      c.params.insert e.1.name (m.argumentRange ⟨e.1, e.2.source, onward⟩))).bind fun s => _) = _
    rw [hread, hrange, Option.bind_some, Option.bind_some, ← hc.2]
    exact honward

end

def callMatch (s : CallShape) (es : List (Param × Value)) : CallMatch :=
  (argumentsMatch true es).after ("auton::" ++ s.kind.callName ++ "(").toList

section
variable {s : CallShape} {es : List (Param × Value)}

theorem text_callText (s : CallShape) (es : List (Param × Value)) :
    (s.callText es).text = (s.callMatch es).text := by
  simp only [callText, CallText.close, text_putAll, callMatch, CallMatch.text_after,
    text_argumentsMatch, List.append_assoc]

theorem text_callMatch (s : CallShape) (es : List (Param × Value)) :
    (s.callMatch es).text = "auton".toList ++ ("::".toList ++ (s.kind.callName.toList ++ (['('] ++
      (argumentsMatch true es).text))) := by
  simp [callMatch, String.toList_append]

theorem match?_append (s : CallShape) (t : Text) :
    s.match? ("auton".toList ++ ("::".toList ++ t))
      = (Gap.read ((Piece.token s.kind.callName.toList).read
          ((Grammar.piece (.token ['(']) (arguments true s.params)).read .stop))
          .between t).map (.after "auton::".toList) := by
  have hcolons : s.grammar.read .stop ("::".toList ++ t) = _ :=
    read_token ⟨_, _, rfl, by decide, by decide⟩
  rw [match?, Piece.read, opening, Piece.split?_token, Option.bind_some]
  dsimp only
  rw [hcolons, Option.map_map]
  rfl

/-- A call with arguments for the first parameters is found, where the other ones may be left out. -/
theorem match?_callMatch (hs : ∀ e ∈ es, Sound e) {rest : List Param}
    (hparams : s.params = es.map (·.1) ++ rest) (hrest : ∀ p ∈ rest, p.optional = true) (r : Text) :
    s.match? ((s.callMatch es).text ++ r) = some (s.callMatch es) := by
  have hbracket : ∀ t, (Grammar.piece (.token ['(']) (arguments true s.params)).read
      .stop (['('] ++ t) = _ := fun t => read_token ⟨_, _, rfl, by decide, by decide⟩
  have harguments := read_arguments true hs hrest r
  rw [← hparams] at harguments
  rw [text_callMatch]
  simp only [List.append_assoc]
  rw [match?_append, read_token ((quiet_name s.kind).solid _ rfl), hbracket, harguments]
  simp [callMatch]

theorem match?_callMatch_of_ne {s' : CallShape} (h : s'.kind ≠ s.kind) (r : Text) :
    s'.match? ((s.callMatch es).text ++ r) = none := by
  obtain ⟨c, x, hname, hc⟩ := (quiet_name s.kind).solid _ rfl
  rw [text_callMatch]
  simp only [List.append_assoc]
  rw [match?_append, hname, List.cons_append, Gap.read_solid hc, ← List.cons_append, ← hname,
    Piece.read, split?_name_of_ne h]
  rfl

theorem extract?_callMatch (hs : ∀ e ∈ es, Sound e) :
    (s.callMatch es).extract?
      = some (.ofList (es.map fun e => (e.1.name, e.2)), (s.callText es).params) := by
  have hfold := @foldlM_argumentsMatch (s.callMatch es) true es
    ⟨("auton::" ++ s.kind.callName ++ "(").toList, []⟩ [] hs rfl
  refine hfold.trans ?_
  rw [NameMap.ofList, List.foldl_map]
  rfl

end

end CallShape

namespace Action
open CallShape
variable {a : Action}

def found (a : Action) : CallMatch :=
  (standard a.kind).callMatch (CallShape.filled a.params (standard a.kind).params)

theorem text_written (a : Action) : a.written.text = a.found.text :=
  text_callText (standard a.kind) _

theorem text_found (a : Action) :
    a.found.text = "auton".toList ++ ("::".toList ++ (a.kind.callName.toList ++ (['('] ++
      (argumentsMatch true (CallShape.filled a.params (standard a.kind).params)).text))) :=
  text_callMatch (standard a.kind) _

theorem match?_found (h : a.Writable) (r : Text) :
    (standard a.kind).match? (a.found.text ++ r) = some a.found := by
  have hrest : ∀ p ∈ (standard a.kind).params.drop ((standard a.kind).writtenCount a.params),
      p.optional = true := fun _ hp => optional_of_mem_drop hp
  refine match?_callMatch (s := standard a.kind) (fun _ he => sound_of_mem_filled h he) ?_ hrest r
  rw [map_filled_eq_take (complete_of_ofParams? a.ofParams?_params), List.take_append_drop]

theorem match?_found_of_ne {kind : ActionKind} (h : kind ≠ a.kind) (r : Text) :
    (standard kind).match? (a.found.text ++ r) = none :=
  @match?_callMatch_of_ne (standard a.kind) _ (standard kind) h r

theorem extract?_found (h : a.Writable) : a.found.extract? = some (a.filledParams, a.written.params) :=
  extract?_callMatch (s := standard a.kind) fun _ he => sound_of_mem_filled h he

theorem ofMatch?_found (h : a.Writable) (place : Nat) :
    ScannedCall.ofMatch? a.kind place a.found
      = some ⟨a.filled, ⟨place, place + a.written.text.size, a.written.text, a.written.params⟩⟩ :=
  ScannedCall.ofMatch?_eq_some_iff.2 ⟨_, _, _, extract?_found h, a.ofParams?_filled, by rw [text_written]⟩

end Action

end RoutineSync
