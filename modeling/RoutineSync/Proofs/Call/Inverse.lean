import RoutineSync.Proofs.Call.Extraction
import RoutineSync.Proofs.Sync.ReadBack
/-!
Writing and reading are inverse for every list of parameters: what is written from values is found as
one call, and what is extracted from it are these values, with the defaults that had to be written.
-/
set_option autoImplicit false

namespace RoutineSync.CallShape

/-- Parameters with names of their own, of which those that may be left out have defaults that can be
written. -/
structure Declares (params : List Param) : Prop where
  names_nodup : (params.map (·.name)).Nodup
  has_default : ∀ p ∈ params, p.optional = true → p.default.isSome = true
  default_sound : ∀ p ∈ params, ∀ v, p.default = some v → Sound (p, v)

theorem perm_ofParams (kind : ActionKind) (params : List Param) :
    (ofParams kind params).params.Perm params := by
  have h := List.filter_append_perm (fun p : Param => !p.optional) params
  simpa only [ofParams, Bool.not_not] using h

theorem head?_occurrences {s : CallShape} {t : Text} {m : CallMatch} (h : s.match? t = some m) :
    (s.occurrences t).head? = some (0, m) := by
  cases t with
  | nil => exact absurd (opens_of_match? h) (by decide)
  | cons c r =>
    have hhere : ((s.match?.column (c :: r)).at 0).filter (fun _ => !Option.any Text.isWord none)
        = some m := Option.filter_eq_some_iff.2 ⟨h, rfl⟩
    rw [occurrences, matchColumn_eq, separate, hhere]
    rfl

section
variable {kind : ActionKind} {params : List Param} {values : NameMap Value}

theorem write?_eq_none_iff (hp : Declares params) :
    (ofParams kind params).write? values = none ↔
      ∃ p ∈ params, p.optional = false ∧ values.get? p.name = none ∧ p.default = none := by
  rw [write?_eq_map, Option.map_eq_none_iff, arguments?, mapM_eq_none_iff]
  simp only [argument?, Option.map_eq_none_iff, Option.or_eq_none_iff]
  constructor
  · rintro ⟨p, hmem, hnone, hdefault⟩
    have hmem := (perm_ofParams kind params).subset (List.mem_of_mem_take hmem)
    refine ⟨p, hmem, ?_, hnone, hdefault⟩
    by_contra hoptional
    have := hp.has_default p hmem (by simpa using hoptional)
    simp [hdefault] at this
  · rintro ⟨p, hmem, hrequired, hnone, hdefault⟩
    exact ⟨p, mem_take_of_written ((perm_ofParams kind params).mem_iff.2 hmem) (.inl hrequired), hnone,
      hdefault⟩

/-- What is written from values is found as one call, and what is extracted from it are the values of
the declared names, and the defaults of the parameters that have none and are followed by one that is
required or has a value. -/
theorem write?_inverse (kind : ActionKind) (hp : Declares params)
    (hv : ∀ p ∈ params, ∀ v, values.get? p.name = some v → Sound (p, v)) :
    let s := ofParams kind params
    (s.write? values = none ↔
      ∃ p ∈ params, p.optional = false ∧ values.get? p.name = none ∧ p.default = none) ∧
    ∀ call, s.write? values = some call → ∃ m read,
      (s.occurrences call.text).head? = some (0, m) ∧ m.text = call.text ∧
      m.extract? = some (read, call.params) ∧
      ∀ name v, read.get? name = some v ↔ ∃ p ∈ params, p.name = name ∧
        (values.get? name = some v ∨ values.get? name = none ∧ p.default = some v ∧
          ∃ ps, p :: ps <:+ s.params ∧ ∃ q ∈ p :: ps, q.optional = false ∨ values.contains q.name = true) := by
  intro s
  refine ⟨write?_eq_none_iff hp, fun call hcall => ?_⟩
  have hperm : s.params.Perm params := perm_ofParams kind params
  rw [write?_eq_map] at hcall
  obtain ⟨es, hes, rfl⟩ := Option.map_eq_some_iff.1 hcall
  obtain ⟨hmap, hvalue⟩ := arguments?_eq_some_iff.1 hes
  have hparam : ∀ e ∈ es, e.1 ∈ params := fun e he =>
    hperm.subset (List.mem_of_mem_take (hmap ▸ List.mem_map_of_mem he))
  have hsound : ∀ e ∈ es, Sound e := fun e he => by
    rcases Option.or_eq_some_iff.1 (hvalue e he) with h | ⟨-, h⟩
    · exact hv e.1 (hparam e he) e.2 h
    · exact hp.default_sound e.1 (hparam e he) e.2 h
  have hrest : ∀ p ∈ s.params.drop (s.writtenCount values), p.optional = true :=
    fun _ h => optional_of_mem_drop h
  have hfound := match?_callMatch hsound (by rw [hmap, List.take_append_drop]) hrest []
  rw [List.append_nil] at hfound
  have hnodup : (es.map (·.1.name)).Nodup := by
    have hs := (hperm.map (·.name)).nodup_iff.2 hp.names_nodup
    have := ((List.take_sublist (s.writtenCount values) s.params).map (·.name)).nodup hs
    rw [← hmap, List.map_map] at this
    exact this
  refine ⟨s.callMatch es, _, ?_, (text_callText s es).symm, extract?_callMatch hsound, fun name v => ?_⟩
  · rw [text_callText]
    exact head?_occurrences hfound
  · have hofList := @NameMap.perm_ofList _ (es.map fun e => (e.1.name, e.2))
      (by simpa [Function.comp_def] using hnodup)
    rw [(NameMap.sorted_ofList _).get?_eq_some_iff, hofList.mem_iff, List.mem_map]
    constructor
    · rintro ⟨e, he, heq⟩
      obtain ⟨rfl, rfl⟩ := Prod.mk.inj heq
      refine ⟨e.1, hparam e he, rfl, ?_⟩
      have hwritten := mem_take_written.1 (hmap ▸ List.mem_map_of_mem he)
      exact (Option.or_eq_some_iff.1 (hvalue e he)).imp_right fun h => ⟨h.1, h.2, hwritten⟩
    · rintro ⟨p, hmem, rfl, h⟩
      have hwritten : p ∈ s.params.take (s.writtenCount values) := by
        rcases h with h | ⟨-, -, h⟩
        · exact mem_take_of_written (hperm.mem_iff.2 hmem) (.inr (by simp [NameMap.contains, h]))
        · exact mem_take_written.2 h
      rw [← hmap] at hwritten
      obtain ⟨e, he, rfl⟩ := List.mem_map.1 hwritten
      have hor : (values.get? e.1.name).or e.1.default = some v := by
        rcases h with h | ⟨hnone, hdefault, -⟩
        · rw [h, Option.some_or]
        · rw [hnone, hdefault, Option.none_or]
      exact ⟨e, he, by rw [Option.some.inj ((hvalue e he).symm.trans hor)]⟩

end

/-- An optional parameter that is declared before a required one. -/
def mixedParams : List Param :=
  [.may "log" (.bool false), .need "count" .int, .may "label" (.text [])]

def mixedValues : NameMap Value := [("count", .int 3), ("label", .text "*/".toList)]

theorem write?_inverse_mixed :
    Declares mixedParams ∧
    (∀ p ∈ mixedParams, ∀ v, mixedValues.get? p.name = some v → Sound (p, v)) ∧
    ∃ m read, ((ofParams .wait mixedParams).occurrences "auton::wait(3, false, \"*/\");".toList).head?
        = some (0, m) ∧
      m.extract? = some (read, [("count", ⟨12, 13⟩), ("label", ⟨22, 26⟩), ("log", ⟨15, 20⟩)]) ∧
      read.get? "log" = some (.bool false) := by
  have hdeclares : Declares mixedParams := by
    refine ⟨by decide, by decide, fun p hp v hv => ?_⟩
    have hall : ∀ p ∈ mixedParams, ∀ v ∈ p.default, v.type = p.type ∧ v.isWritable = true := by
      decide +kernel
    exact ⟨(hall p hp v hv).1, (hall p hp v hv).2⟩
  have hvalues : ∀ p ∈ mixedParams, ∀ v, mixedValues.get? p.name = some v → Sound (p, v) := by
    intro p hp v hv
    have hall : ∀ p ∈ mixedParams, ∀ v ∈ mixedValues.get? p.name,
        v.type = p.type ∧ v.isWritable = true := by decide +kernel
    exact ⟨(hall p hp v hv).1, (hall p hp v hv).2⟩
  have hcall : (ofParams .wait mixedParams).write? mixedValues
      = some ⟨"auton::wait(3, false, \"*/\");".toList,
          [("count", ⟨12, 13⟩), ("label", ⟨22, 26⟩), ("log", ⟨15, 20⟩)]⟩ := by decide +kernel
  obtain ⟨m, read, hfirst, -, hread, hget⟩ := (write?_inverse .wait hdeclares hvalues).2 _ hcall
  refine ⟨hdeclares, hvalues, m, read, hfirst, hread, (hget _ _).2 ?_⟩
  refine ⟨.may "log" (.bool false), List.mem_cons_self, rfl, .inr ⟨rfl, rfl, [.may "label" (.text [])], ?_⟩⟩
  exact ⟨⟨[.need "count" .int], rfl⟩, .may "label" (.text []), by simp, .inr rfl⟩

end RoutineSync.CallShape
