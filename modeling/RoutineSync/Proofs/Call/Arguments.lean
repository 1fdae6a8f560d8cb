import RoutineSync.Call.Writer
import RoutineSync.Proofs.Result
import Mathlib.Data.List.DropRight
/-!
The arguments that a call writes: the values that are given, and before one of these the defaults of
those that are not.
-/
set_option autoImplicit false

namespace RoutineSync

namespace CallText

def put (c : CallText) (e : Param × Value) : CallText :=
  let text := c.text ++ e.2.source
  ⟨text, c.params.insert e.1.name ⟨c.text.size, text.size⟩⟩

def putAll : Bool → CallText → List (Param × Value) → CallText
  | _, c, [] => c
  | first, c, e :: es =>
    putAll false (put (if first then c else { c with text := c.text ++ [',', ' '] }) e) es

def close (c : CallText) : CallText := { c with text := c.text ++ ");".toList }

end CallText

namespace CallShape

def argumentsText : Bool → List (Param × Value) → Text
  | _, [] => []
  | first, e :: es =>
    (if first then [] else [',', ' ']) ++ e.2.source ++ argumentsText false es

theorem text_putAll (first : Bool) (c : CallText) (es : List (Param × Value)) :
    (CallText.putAll first c es).text = c.text ++ argumentsText first es := by
  induction es generalizing first c with
  | nil => simp [CallText.putAll, argumentsText]
  | cons e es ih => cases first <;> simp [CallText.putAll, argumentsText, ih, CallText.put]

/-- What is written for the parameters: a value that is given, and the default of one that is not
where a later one is. -/
def filled (values : NameMap Value) : List Param → List (Param × Value)
  | [] => []
  | p :: ps =>
    match values.get? p.name with
    | some v => (p, v) :: filled values ps
    | none =>
      if ps.any fun q => values.contains q.name then
        (p.default.map fun v => (p, v)).toList ++ filled values ps
      else []

/-- Values for all parameters that need one, where the others have defaults. -/
def Complete (values : NameMap Value) (ps : List Param) : Prop :=
  ∀ p ∈ ps, if p.optional then p.default.isSome = true else values.contains p.name = true

section
variable {values : NameMap Value} {ps : List Param}

theorem Complete.exists_value (h : Complete values ps) {p : Param} (hp : p ∈ ps) :
    ∃ v, (values.get? p.name).or p.default = some v := by
  have := h p hp
  cases hv : values.get? p.name with
  | some v => exact ⟨v, rfl⟩
  | none => split at this <;> simp_all [NameMap.contains, Option.isSome_iff_exists]

theorem Complete.tail {p : Param} (h : Complete values (p :: ps)) : Complete values ps :=
  fun q hq => h q (List.mem_cons_of_mem _ hq)

theorem rdropWhile_cons {α : Type} (f : α → Bool) (x : α) (xs : List α) :
    (x :: xs).rdropWhile f
      = if xs.all f then (if f x then [] else [x]) else x :: xs.rdropWhile f := by
  have hall : (xs.reverse.dropWhile f).isEmpty = xs.all f := by
    rw [Bool.eq_iff_iff, List.isEmpty_iff, List.dropWhile_eq_nil_iff]
    simp
  rw [List.rdropWhile, List.reverse_cons, List.dropWhile_append, hall]
  by_cases h : xs.all f
  · by_cases hx : f x <;> simp [h, hx]
  · simp [h, List.rdropWhile]

/-- A parameter that has no value and is not followed by one is not written, nor is what follows. -/
theorem map_filled (h : Complete values ps) :
    (filled values ps).map (·.1) = ps.rdropWhile fun p => !(!p.optional || values.contains p.name) := by
  induction ps with
  | nil => simp [filled]
  | cons p ps ih =>
    have hwritten : ∀ q ∈ p :: ps, (!q.optional || values.contains q.name) = values.contains q.name := by
      intro q hq
      have := h q hq
      cases ho : q.optional <;> simp_all
    have hany : ps.all (fun q => !(!q.optional || values.contains q.name))
        = !ps.any fun q => values.contains q.name := by
      rw [Bool.eq_iff_iff, List.all_eq_true, Bool.not_eq_true', List.any_eq_false]
      refine forall₂_congr fun q hq => ?_
      rw [hwritten q (List.mem_cons_of_mem _ hq), Bool.not_eq_true', Bool.not_eq_true]
    rw [rdropWhile_cons, hany, hwritten p List.mem_cons_self, ← ih h.tail, filled]
    cases hv : values.get? p.name with
    | some v =>
      have hp : values.contains p.name = true := by simp [NameMap.contains, hv]
      by_cases hlater : ps.any fun q => values.contains q.name
      · simp [hlater]
      · -- nothing is written behind the parameter
        have hnil : (filled values ps).map (·.1) = [] := by
          rw [ih h.tail, List.rdropWhile_eq_nil_iff]
          rw [Bool.not_eq_true] at hlater
          exact List.all_eq_true.1 (hany.trans (by rw [hlater]; rfl))
        simp [hlater, hp, List.map_eq_nil_iff.1 hnil]
    | none =>
      have hp : values.contains p.name = false := by simp [NameMap.contains, hv]
      obtain ⟨v, hdefault⟩ := h.exists_value List.mem_cons_self
      rw [hv, Option.none_or] at hdefault
      by_cases hlater : ps.any fun q => values.contains q.name
      · simp [hlater, hdefault]
      · simp [hlater, hp]

theorem value_of_mem_filled {e : Param × Value} (h : e ∈ filled values ps) :
    e.1 ∈ ps ∧ (values.get? e.1.name).or e.1.default = some e.2 := by
  induction ps with
  | nil => simp [filled] at h
  | cons p ps ih =>
    have htail := fun he => (ih he).imp_left (List.mem_cons_of_mem p)
    unfold filled at h
    split at h
    · rename_i v hv
      rcases List.mem_cons.1 h with rfl | h
      · simp [hv]
      · exact htail h
    · rename_i hv
      split at h
      · rcases List.mem_append.1 h with h | h
        · simp only [Option.mem_toList, Option.map_eq_some_iff] at h
          obtain ⟨v, hd, rfl⟩ := h
          simp [hv, hd]
        · exact htail h
      · exact absurd h List.not_mem_nil

end

section
variable {s : CallShape} {values : NameMap Value}

/-- What is written are the parameters up to the last one that is required or has a value. -/
theorem take_written (s : CallShape) (values : NameMap Value) :
    s.params.take (s.writtenCount values)
      = s.params.rdropWhile fun p => !(!p.optional || values.contains p.name) := by
  have hprefix := List.rdropWhile_prefix (fun p : Param => !(!p.optional || values.contains p.name))
    s.params
  rw [List.prefix_iff_eq_take.1 hprefix, List.rdropWhile, List.length_reverse]
  rfl

theorem drop_written (s : CallShape) (values : NameMap Value) :
    s.params.drop (s.writtenCount values)
      = s.params.rtakeWhile fun p => !(!p.optional || values.contains p.name) := by
  have h := List.take_append_drop (s.writtenCount values) s.params
  conv at h => rhs; rw [← List.rdropWhile_append_rtakeWhile (l := s.params)
    (p := fun p => !(!p.optional || values.contains p.name))]
  rw [take_written] at h
  exact List.append_cancel_left h

theorem optional_of_mem_drop {p : Param} (h : p ∈ s.params.drop (s.writtenCount values)) :
    p.optional = true := by
  rw [drop_written] at h
  have := List.mem_rtakeWhile_imp h
  simp_all

theorem mem_rdropWhile_iff {α : Type} {f : α → Bool} {x : α} {xs : List α} :
    x ∈ xs.rdropWhile f ↔ ∃ ys, x :: ys <:+ xs ∧ ∃ y ∈ x :: ys, f y = false := by
  induction xs with
  | nil => simp
  | cons z xs ih =>
    rw [rdropWhile_cons]
    constructor
    · intro h
      split at h
      · split at h
        · exact absurd h List.not_mem_nil
        · rename_i hz
          obtain rfl := List.mem_singleton.1 h
          exact ⟨xs, List.suffix_rfl, x, List.mem_cons_self, by simpa using hz⟩
      · rename_i hall
        rcases List.mem_cons.1 h with rfl | h
        · simp only [List.all_eq_true, not_forall, Bool.not_eq_true] at hall
          obtain ⟨y, hy, hfalse⟩ := hall
          exact ⟨xs, List.suffix_rfl, y, List.mem_cons_of_mem _ hy, hfalse⟩
        · obtain ⟨ys, hys, hy⟩ := ih.1 h
          exact ⟨ys, hys.trans (List.suffix_cons z xs), hy⟩
    · rintro ⟨ys, hys, y, hy, hfalse⟩
      rcases List.suffix_cons_iff.1 hys with heq | hys
      · obtain ⟨rfl, rfl⟩ := List.cons.inj heq
        split
        · rename_i hall
          rcases List.mem_cons.1 hy with rfl | hy
          · simp [hfalse]
          · rw [List.all_eq_true.1 hall y hy] at hfalse
            exact absurd hfalse (by simp)
        · exact List.mem_cons_self
      · rw [if_neg fun hall => ?_]
        · exact List.mem_cons_of_mem _ (ih.2 ⟨ys, hys, y, hy, hfalse⟩)
        · rw [List.all_eq_true.1 hall y (hys.subset hy)] at hfalse
          exact absurd hfalse (by simp)

/-- A parameter is written where it, or one behind it, is required or has a value. -/
theorem mem_take_written {p : Param} :
    p ∈ s.params.take (s.writtenCount values) ↔ ∃ ps, p :: ps <:+ s.params ∧
      ∃ q ∈ p :: ps, q.optional = false ∨ values.contains q.name = true := by
  rw [take_written, mem_rdropWhile_iff]
  simp only [Bool.not_eq_false', Bool.or_eq_true, Bool.not_eq_true']

theorem mem_take_of_written {p : Param} (hp : p ∈ s.params)
    (h : p.optional = false ∨ values.contains p.name = true) :
    p ∈ s.params.take (s.writtenCount values) := by
  obtain ⟨x, y, hxy⟩ := List.append_of_mem hp
  exact mem_take_written.2 ⟨y, ⟨x, hxy.symm⟩, p, List.mem_cons_self, h⟩

theorem map_filled_eq_take (h : Complete values s.params) :
    (filled values s.params).map (·.1) = s.params.take (s.writtenCount values) := by
  rw [map_filled h, take_written]

theorem writtenCount_le (s : CallShape) (values : NameMap Value) :
    s.writtenCount values ≤ s.params.length :=
  ((List.dropWhile_sublist _).length_le).trans (by simp)

def argument? (values : NameMap Value) (p : Param) : Option (Param × Value) :=
  ((values.get? p.name).or p.default).map fun v => (p, v)

/-- What is written for the parameters up to the last one that is; none where one of them has neither
a value nor a default. -/
def arguments? (s : CallShape) (values : NameMap Value) : Option (List (Param × Value)) :=
  (s.params.take (s.writtenCount values)).mapM (argument? values)

theorem mapM_eq_some_iff {α β : Type} {f : α → Option β} {xs : List α} {ys : List β} :
    xs.mapM f = some ys ↔ xs.map f = ys.map some := by
  induction xs generalizing ys with
  | nil => cases ys <;> simp
  | cons x xs ih =>
    rw [List.mapM_cons]
    cases ys with
    | nil => cases f x <;> cases xs.mapM f <;> simp
    | cons y ys =>
      rw [List.map_cons, List.map_cons, List.cons_eq_cons, ← ih]
      cases f x <;> cases xs.mapM f <;> simp

theorem mapM_of_perm {α β : Type} {f : α → Option β} {xs xs' : List α} {ys : List β}
    (hperm : xs.Perm xs') (h : xs.mapM f = some ys) : ∃ ys', xs'.mapM f = some ys' ∧ ys.Perm ys' := by
  rw [mapM_eq_some_iff] at h
  have hys : xs.filterMap f = ys := by
    have hmaps := congrArg (List.filterMap fun o => o) h
    rw [List.filterMap_map, List.filterMap_map] at hmaps
    simpa using hmaps
  have hsome : ∀ o ∈ xs.map f, o.isSome = true := by simp [h]
  refine ⟨xs'.filterMap f, ?_, hys ▸ hperm.filterMap f⟩
  rw [mapM_eq_some_iff, List.map_filterMap_some_eq_filter_map_isSome,
    List.filter_eq_self.2 fun o ho => hsome o ((hperm.map f).mem_iff.2 ho)]

theorem mapM_eq_none_iff {α β : Type} {f : α → Option β} {xs : List α} :
    xs.mapM f = none ↔ ∃ x ∈ xs, f x = none := by
  induction xs with
  | nil => simp
  | cons x xs ih =>
    rw [List.mapM_cons, List.exists_mem_cons_iff, ← ih]
    cases f x <;> cases xs.mapM f <;> simp

theorem arguments?_eq (h : Complete values s.params) :
    s.arguments? values = some (filled values s.params) := by
  rw [arguments?, mapM_eq_some_iff, ← map_filled_eq_take h, List.map_map]
  refine List.map_congr_left fun e he => ?_
  rw [Function.comp_apply, argument?, (value_of_mem_filled he).2, Option.map_some]

theorem arguments?_eq_some_iff {es : List (Param × Value)} :
    s.arguments? values = some es ↔ es.map (·.1) = s.params.take (s.writtenCount values) ∧
      ∀ e ∈ es, (values.get? e.1.name).or e.1.default = some e.2 := by
  rw [arguments?, mapM_eq_some_iff]
  generalize s.params.take (s.writtenCount values) = ps
  induction ps generalizing es with
  | nil => cases es <;> simp
  | cons p ps ih =>
    cases es with
    | nil => simp
    | cons e es =>
      rw [List.map_cons, List.map_cons, List.cons_eq_cons, ih, List.map_cons, List.cons_eq_cons,
        List.forall_mem_cons, argument?, Option.map_eq_some_iff]
      constructor
      · rintro ⟨⟨v, hv, rfl⟩, hes, hall⟩
        exact ⟨⟨rfl, hes⟩, hv, hall⟩
      · rintro ⟨⟨rfl, hes⟩, hv, hall⟩
        exact ⟨⟨e.2, hv, rfl⟩, hes, hall⟩

theorem intersperse_cons {α : Type} (a x : α) (xs : List α) :
    (x :: xs).intersperse a = x :: xs.flatMap fun y => [a, y] := by
  induction xs generalizing x with
  | nil => rfl
  | cons y ys ih => simp [ih]

theorem writeFragment_param (next : Option Fragment) (c : CallText) {i : Nat}
    (hi : i < s.writtenCount values) :
    ∃ p, (s.params.take (s.writtenCount values)).drop i
        = p :: (s.params.take (s.writtenCount values)).drop (i + 1) ∧
      s.writeFragment (s.writtenCount values) values next c (.param i)
        = (argument? values p).map c.put := by
  have hlt : i < s.params.length := Nat.lt_of_lt_of_le hi (s.writtenCount_le values)
  have hp : (s.params.take (s.writtenCount values))[i]? = some s.params[i] := by
    rw [List.getElem?_take_of_lt hi, List.getElem?_eq_getElem hlt]
  refine ⟨s.params[i], List.drop_eq_getElem?_toList_append.trans (by rw [hp]; rfl), ?_⟩
  rw [writeFragment, if_pos hi, List.getElem?_eq_getElem hlt, argument?, Option.map_map]
  show (((values.get? s.params[i].name).or s.params[i].default).bind fun v =>
    some (c.put (s.params[i], v))) = _
  cases (values.get? s.params[i].name).or s.params[i].default <;> rfl

theorem drop_take_written {i : Nat} (hi : ¬ i < s.writtenCount values) :
    (s.params.take (s.writtenCount values)).drop i = [] :=
  List.drop_of_length_le (by rw [List.length_take]; omega)

theorem writeFragments_rest (c : CallText) {i n : Nat} (hn : i + n = s.params.length) :
    s.writeFragments (s.writtenCount values) values c
        ((List.range' i n).flatMap (fun j => [Fragment.separator, .param j]) ++ [.literal ");"])
      = (((s.params.take (s.writtenCount values)).drop i).mapM (argument? values)).map
          fun es => (CallText.putAll false c es).close := by
  induction n generalizing i c with
  | zero =>
    have := s.writtenCount_le values
    rw [drop_take_written (by omega)]
    rfl
  | succ n ih =>
    have hsep : s.writeFragment (s.writtenCount values) values (some (.param i)) c .separator
        = some (if i < s.writtenCount values then { c with text := c.text ++ [',', ' '] } else c) :=
      rfl
    simp only [List.range'_succ, List.flatMap_cons, List.cons_append, List.nil_append, writeFragments,
      List.head?_cons, hsep, Option.bind_eq_bind, Option.bind_some]
    by_cases hi : i < s.writtenCount values
    · obtain ⟨p, hp, hput⟩ := writeFragment_param
        (((List.range' (i + 1) n).flatMap fun j => [Fragment.separator, .param j])
          ++ [Fragment.literal ");"]).head?
        { c with text := c.text ++ [',', ' '] } hi
      rw [if_pos hi, hput, hp, List.mapM_cons]
      cases argument? values p with
      | none => rfl
      | some e =>
        rw [Option.map_some, Option.bind_some, ih _ (by omega)]
        cases ((s.params.take (s.writtenCount values)).drop (i + 1)).mapM (argument? values) <;> rfl
    · rw [if_neg hi, writeFragment, if_neg hi, Option.bind_some, ih c (by omega), drop_take_written hi,
        drop_take_written (by omega)]

def callText (s : CallShape) (es : List (Param × Value)) : CallText :=
  (CallText.putAll true ⟨("auton::" ++ s.kind.callName ++ "(").toList, []⟩ es).close

theorem write?_eq_map (s : CallShape) (values : NameMap Value) :
    s.write? values = (s.arguments? values).map s.callText := by
  let c : CallText := ⟨("auton::" ++ s.kind.callName ++ "(").toList, []⟩
  show s.writeFragments (s.writtenCount values) values c
    (((List.range s.params.length).map Fragment.param).intersperse .separator
      ++ [Fragment.literal ");"]) = _
  rw [List.range_eq_range', arguments?]
  cases hn : s.params.length with
  | zero =>
    rw [List.length_eq_zero_iff.1 hn, List.take_nil]
    rfl
  | succ n =>
    rw [List.range'_succ, List.map_cons, intersperse_cons, List.flatMap_map, List.cons_append,
      writeFragments]
    by_cases hi : 0 < s.writtenCount values
    · obtain ⟨p, hp, hput⟩ := writeFragment_param
        (((List.range' (0 + 1) n).flatMap fun j => [Fragment.separator, .param j])
          ++ [Fragment.literal ");"]).head? c hi
      rw [List.drop_zero] at hp
      rw [hput, hp, List.mapM_cons]
      cases argument? values p with
      | none => rfl
      | some e =>
        rw [Option.map_some, Option.bind_eq_bind, Option.bind_some, writeFragments_rest _ (by omega)]
        cases ((s.params.take (s.writtenCount values)).drop (0 + 1)).mapM (argument? values) <;> rfl
    · have hsame : s.writeFragment (s.writtenCount values) values
          (((List.range' (0 + 1) n).flatMap fun j => [Fragment.separator, .param j])
            ++ [Fragment.literal ");"]).head? c (.param 0) = some c := if_neg hi
      rw [hsame, Option.bind_eq_bind, Option.bind_some, writeFragments_rest _ (by omega),
        drop_take_written (by omega), ← List.drop_zero (l := s.params.take _), drop_take_written hi]
      rfl

theorem write?_eq (h : Complete values s.params) :
    s.write? values = some (s.callText (filled values s.params)) := by
  rw [write?_eq_map, arguments?_eq h, Option.map_some]

end

end CallShape

end RoutineSync
