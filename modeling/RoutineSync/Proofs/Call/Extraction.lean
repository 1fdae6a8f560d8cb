import RoutineSync.Proofs.Action.NameMap
/-!
What is extracted from a call: under the name of each argument the value of its literal, and the
range where that literal stands.
-/
set_option autoImplicit false

namespace RoutineSync.CallMatch
variable {ps : List Param} {m : CallMatch} {values : NameMap Value} {ranges : NameMap ByteRange}

theorem mem_zip_iff {α β γ : Type} {f : α → Option β} {g : α → γ} {xs : List α} {ys : List β}
    (h : xs.map f = ys.map some) {e : γ × β} :
    e ∈ (xs.map g).zip ys ↔ ∃ x ∈ xs, g x = e.1 ∧ f x = some e.2 := by
  induction xs generalizing ys with
  | nil => simp
  | cons x xs ih =>
    cases ys with
    | nil => simp at h
    | cons y ys =>
      obtain ⟨hx, hxs⟩ := List.cons.inj h
      rw [List.map_cons, List.zip_cons_cons, List.mem_cons, ih hxs, List.exists_mem_cons_iff, hx,
        Prod.ext_iff, Option.some.injEq, eq_comm, eq_comm (a := e.2)]

theorem Laid.names_nodup (h : m.Laid ps) (hps : (ps.map (·.name)).Nodup) :
    (m.args.map (·.param.name)).Nodup := by
  have := (h.params_isPrefix.map (·.name)).sublist.nodup hps
  simpa [Function.comp_def] using this

theorem perm_values (h : m.extract? = some (values, ranges)) (hm : (m.args.map (·.param.name)).Nodup) :
    ∃ read : List Value, m.args.map (fun a => a.param.type.read? a.literal) = read.map some ∧
      values.Perm ((m.args.map (·.param.name)).zip read) ∧
      values.names.Perm (m.args.map (·.param.name)) := by
  obtain ⟨read, hread, rfl, -⟩ := extract?_eq_some h
  have hlength : m.args.length = read.length := by simpa using congrArg List.length hread
  have hnames : ((m.args.map (·.param.name)).zip read).map (·.1) = m.args.map (·.param.name) :=
    List.map_fst_zip (by simp [hlength])
  have hperm := @NameMap.perm_ofList _ ((m.args.map (·.param.name)).zip read)
    (by rwa [hnames])
  exact ⟨read, hread, hperm, (hperm.map _).trans (.of_eq hnames)⟩

theorem perm_ranges (h : m.extract? = some (values, ranges)) (hm : (m.args.map (·.param.name)).Nodup) :
    ranges.Perm (m.args.map fun a => (a.param.name, m.argumentRange a)) := by
  obtain ⟨-, -, -, rfl⟩ := extract?_eq_some h
  exact NameMap.perm_ofList (by simpa [Function.comp_def] using hm)

theorem sorted_extract? (h : m.extract? = some (values, ranges)) : values.Sorted ∧ ranges.Sorted := by
  obtain ⟨_, -, rfl, rfl⟩ := extract?_eq_some h
  exact ⟨NameMap.sorted_ofList _, NameMap.sorted_ofList _⟩

theorem get?_values (h : m.extract? = some (values, ranges)) (hm : (m.args.map (·.param.name)).Nodup)
    {name : String} {v : Value} :
    values.get? name = some v ↔
      ∃ a ∈ m.args, a.param.name = name ∧ a.param.type.read? a.literal = some v := by
  obtain ⟨read, hread, hperm, -⟩ := perm_values h hm
  rw [(sorted_extract? h).1.get?_eq_some_iff, hperm.mem_iff, mem_zip_iff hread]

theorem get?_ranges (h : m.extract? = some (values, ranges)) (hm : (m.args.map (·.param.name)).Nodup)
    {name : String} {r : ByteRange} :
    ranges.get? name = some r ↔ ∃ a ∈ m.args, a.param.name = name ∧ m.argumentRange a = r := by
  rw [(sorted_extract? h).2.get?_eq_some_iff, (perm_ranges h hm).mem_iff, List.mem_map]
  simp only [Prod.mk.injEq]

theorem names_ranges (h : m.extract? = some (values, ranges)) (hm : (m.args.map (·.param.name)).Nodup) :
    ranges.names = values.names := by
  obtain ⟨_, -, -, hvalues⟩ := perm_values h hm
  refine (sorted_extract? h).2.names_eq (sorted_extract? h).1 fun name => ?_
  rw [hvalues.mem_iff, NameMap.names, ((perm_ranges h hm).map _).mem_iff, List.map_map]
  rfl

theorem exists_extract? (h : ∀ a ∈ m.args, (a.param.type.read? a.literal).isSome = true) :
    ∃ values ranges, m.extract? = some (values, ranges) := by
  unfold extract?
  generalize m.argumentRange = range
  generalize ([] : NameMap Value) = vs, ([] : NameMap ByteRange) = rs
  generalize m.args = args at h ⊢
  induction args generalizing vs rs with
  | nil => exact ⟨vs, rs, rfl⟩
  | cons a args ih =>
    obtain ⟨hv, hrest⟩ := List.forall_mem_cons.1 h
    obtain ⟨v, hv⟩ := Option.isSome_iff_exists.1 hv
    rw [List.foldlM_cons, hv]
    exact ih _ _ hrest

theorem Laid.slice?_argument (h : m.Laid ps) {a : Argument} (ha : a ∈ m.args) :
    m.text.slice? (m.argumentRange a).start (m.argumentRange a).stop = some a.literal := by
  obtain ⟨-, lead, rest, ht, ho, -⟩ := h.exists_argument a ha
  have hstart : m.text.size - a.onward.size = lead.size := by
    rw [ht, Text.size_append]
    omega
  simp only [argumentRange, hstart]
  rw [ht, ho, ← List.append_assoc]
  exact Text.slice?_append lead a.literal rest

end RoutineSync.CallMatch
