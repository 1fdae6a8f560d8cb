import RoutineSync.Proofs.Scan.Found
/-!
Values between quotes: what is read from a text can be written again.
-/
set_option autoImplicit false

namespace RoutineSync

theorem Value.quotable_cons {c : Char} (h : c ≠ '\\') (cs : Text) :
    quotable (c :: cs) = (c != '"' && c != '\n' && quotable cs) := by
  rw [quotable] <;> simp [h]

theorem Value.unbroken_of_quotable {cs : Text} (h : quotable cs = true) : '\n' ∉ cs := by
  fun_induction quotable cs with
  | case1 => simp
  | case2 => simp at h
  | case3 c cs ih =>
    simp only [Bool.and_eq_true, bne_iff_ne, ne_eq] at h
    simp [Ne.symm h.1, ih h.2]
  | case4 c cs _ _ ih =>
    simp only [Bool.and_eq_true, bne_iff_ne, ne_eq] at h
    simp [Ne.symm h.1.2, ih h.2]

namespace Literal

theorem closing?_cons {c : Char} (hquote : c ≠ '"') (hescape : c ≠ '\\') (r : Text) :
    closing? (c :: r)
      = if c = '\n' then none else (closing? r).map fun p => (c :: p.1, p.2) := by
  rw [closing?] <;> simp [hquote, hescape]

/-- What is left when neither case of a backslash applies. -/
theorem ne_escape {c : Char} {r : Text} (hlast : c = '\\' → r = [] → False)
    (hpair : ∀ d ds, c = '\\' → r = d :: ds → False) : c ≠ '\\' := by
  intro hc
  cases r with
  | nil => exact hlast hc rfl
  | cons d ds => exact hpair d ds hc rfl

theorem closing?_quotable {cs : Text} (h : Value.quotable cs = true) (r : Text) :
    closing? (cs ++ '"' :: r) = some (cs ++ ['"'], r) := by
  fun_induction Value.quotable cs with
  | case1 => rfl
  | case2 => simp at h
  | case3 c cs ih => simp_all [closing?]
  | case4 c cs hlast hpair ih =>
    simp only [Bool.and_eq_true, bne_iff_ne, ne_eq] at h
    rw [List.cons_append, closing?_cons h.1.1 (ne_escape hlast hpair), if_neg h.1.2, ih h.2]
    rfl

theorem exists_of_closing? {t a r : Text} (h : closing? t = some (a, r)) :
    ∃ cs, Value.quotable cs = true ∧ a = cs ++ ['"'] := by
  fun_induction closing? t generalizing a r with
  | case1 r => exact ⟨[], rfl, by simp_all⟩
  | case2 => simp at h
  | case3 => simp at h
  | case4 c r hc ih =>
    obtain ⟨⟨x, y⟩, hx, he⟩ := Option.map_eq_some_iff.1 h
    obtain ⟨cs, hcs, rfl⟩ := ih hx
    exact ⟨'\\' :: c :: cs, by simp [Value.quotable, hc, hcs], (congrArg Prod.fst he).symm⟩
  | case5 => simp at h
  | case6 c r hquote hlast hpair hc ih =>
    obtain ⟨⟨x, y⟩, hx, he⟩ := Option.map_eq_some_iff.1 h
    obtain ⟨cs, hcs, rfl⟩ := ih hx
    refine ⟨c :: cs, ?_, (congrArg Prod.fst he).symm⟩
    have hquote : c ≠ '"' := hquote
    simp [Value.quotable_cons (ne_escape hlast hpair), hquote, hc, hcs]
  | case7 => simp at h

/-- A text literal is a text that can stand between quotes, between quotes. -/
theorem exists_of_text? {t a r : Text} (h : text? t = some (a, r)) :
    ∃ cs, Value.quotable cs = true ∧ a = '"' :: (cs ++ ['"']) := by
  unfold text? at h
  split at h
  · obtain ⟨⟨x, y⟩, hx, he⟩ := Option.map_eq_some_iff.1 h
    obtain ⟨cs, hcs, rfl⟩ := exists_of_closing? hx
    exact ⟨cs, hcs, (congrArg Prod.fst he).symm⟩
  · simp at h

end Literal

theorem ValueType.quotable_of_read? {type : ValueType} {t a r cs : Text}
    (h : type.literal? t = some (a, r)) (hv : type.read? a = some (.text cs)) :
    Value.quotable cs = true := by
  cases type with
  | float => simp [read?] at hv
  | int => simp [read?] at hv
  | bool =>
    simp only [read?] at hv
    split at hv
    · simp at hv
    · split at hv <;> simp at hv
  | text =>
    obtain ⟨ds, hds, rfl⟩ := Literal.exists_of_text? h
    simp [read?] at hv
    rwa [← hv]

namespace Action

/-- The texts among the parameters. -/
def texts (a : Action) : List Text := a.params.filterMap fun e => e.2.text?

def Quotable (a : Action) : Prop := ∀ cs ∈ a.texts, Value.quotable cs = true

theorem filterMap_entry {α : Type} (name : String) {wrap : α → Value} (hw : ∀ v, (wrap v).text? = none)
    (v : Option α) : (entry name wrap v).filterMap (fun e => e.2.text?) = [] := by
  cases v <;> simp [entry, hw]

theorem mem_texts_iff {a : Action} {cs : Text} :
    cs ∈ a.texts ↔ ∃ timeout lookahead reverse maxSpeed log,
      a = .follow cs timeout lookahead reverse maxSpeed log := by
  have hbool := fun name => @filterMap_entry Bool name .bool fun _ => rfl
  have hfloat := fun name => @filterMap_entry Binary64 name .float fun _ => rfl
  cases a <;>
    simp only [texts, params, List.filterMap_append, List.mem_append, hbool, hfloat] <;>
    simp [Value.text?, eq_comm]

theorem exists_of_mem_texts {kind : ActionKind} {m : NameMap Value} {a : Action} {cs : Text}
    (h : ofParams? kind m = some a) (hcs : cs ∈ a.texts) : ∃ e ∈ m, e.2 = .text cs := by
  obtain ⟨timeout, lookahead, reverse, maxSpeed, log, rfl⟩ := mem_texts_iff.1 hcs
  obtain rfl : .follow = kind := kind_of_ofParams? h
  simp only [ofParams?, Option.bind_eq_bind, Option.bind_eq_some_iff] at h
  obtain ⟨filePath, hpath, _, -, _, -, _, -, _, -, _, -, h⟩ := h
  obtain ⟨v, hv, htext⟩ := Option.bind_eq_some_iff.1 hpath
  refine ⟨_, NameMap.mem_of_get? hv, ?_⟩
  cases v <;> simp_all [Value.text?]

end Action

/-- A call that was scanned can be written again, as far as its texts go. -/
theorem quotable_of_mem_scan {t : Text} {c : ScannedCall} (h : c ∈ scan t) : c.action.Quotable := by
  obtain ⟨kind, lead, rest, m, -, hm, hc, -⟩ := foundIn_of_mem_scan h
  obtain ⟨values, ranges, action, he, ha, rfl⟩ := ScannedCall.ofMatch?_eq_some_iff.1 hc
  obtain ⟨n, rfl, hn⟩ := CallShape.derives_of_match? hm
  obtain ⟨read, hr, rfl, -⟩ := CallMatch.extract?_eq_some he
  intro cs hcs
  obtain ⟨e, he, htext⟩ := Action.exists_of_mem_texts ha hcs
  obtain ⟨a, hargs, hv⟩ : ∃ a ∈ n.args, a.param.type.read? a.literal = some (.text cs) := by
    have hmem : some e.2 ∈ read.map some :=
      List.mem_map_of_mem (List.of_mem_zip (NameMap.mem_of_mem_ofList he)).2
    rw [← hr, htext] at hmem
    exact List.mem_map.1 hmem
  obtain ⟨⟨_, _, hliteral⟩, -⟩ := (CallShape.laid_of_grammar hn).exists_argument a hargs
  exact ValueType.quotable_of_read? hliteral hv

end RoutineSync
