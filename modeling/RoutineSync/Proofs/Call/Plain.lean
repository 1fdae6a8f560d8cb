import Mathlib.Data.List.Chain
import Mathlib.Data.List.Infix
import RoutineSync.Proofs.Call.Layout
import RoutineSync.Proofs.Call.Literals
/-!
Calls in a text without comments and quotes. Only blanks stand in their gaps, so that the text up to
the first semicolon decides whether a call is found, and of which kind, and no call holds the start
of another.
-/
set_option autoImplicit false

namespace RoutineSync

namespace Text

/-- A text without quotes and comments. -/
structure Plain (t : Text) : Prop where
  no_quote : '"' ∉ t
  no_line : ¬['/', '/'] <:+: t
  no_block : ¬['/', '*'] <:+: t

instance (t : Text) : Decidable t.Plain :=
  decidable_of_iff ('"' ∉ t ∧ ¬['/', '/'] <:+: t ∧ ¬['/', '*'] <:+: t)
    ⟨fun ⟨h1, h2, h3⟩ => ⟨h1, h2, h3⟩, fun h => ⟨h.no_quote, h.no_line, h.no_block⟩⟩

theorem Plain.part {t x : Text} (h : t.Plain) (hx : x <:+: t) : x.Plain where
  no_quote hq := h.no_quote (hx.subset hq)
  no_line hl := h.no_line (hl.trans hx)
  no_block hb := h.no_block (hb.trans hx)

theorem Plain.left {x y : Text} (h : (x ++ y).Plain) : x.Plain :=
  h.part (List.prefix_append x y).isInfix

theorem Plain.right {x y : Text} (h : (x ++ y).Plain) : y.Plain :=
  h.part (List.suffix_append x y).isInfix

/-- A character that no gap starts with. -/
structure Solid (c : Char) : Prop where
  not_blank : isBlank c = false
  not_slash : c ≠ '/'

/-- What stands between the ends of a call: no semicolon, and nowhere `au`. -/
structure Calm (t : Text) : Prop where
  pairs : t.IsChain fun a b => a = 'a' → b ≠ 'u'
  start : t.head? ≠ some 'u'
  unended : ';' ∉ t

theorem Calm.append {x y : Text} (hx : x.Calm) (hy : y.Calm) : (x ++ y).Calm where
  pairs := by
    refine hx.pairs.append hy.pairs fun _ _ c hc _ h => hy.start ?_
    rw [← h]
    exact hc
  start := by
    cases x with
    | nil => exact hy.start
    | cons a x => exact hx.start
  unended h := by
    rcases List.mem_append.1 h with h | h
    · exact hx.unended h
    · exact hy.unended h

theorem calm_of_not_mem {t : Text} (hu : 'u' ∉ t) (hs : ';' ∉ t) : t.Calm where
  pairs := by
    induction t with
    | nil => exact .nil
    | cons a t ih =>
      have ht := ih (fun h => hu (List.mem_cons_of_mem _ h)) fun h => hs (List.mem_cons_of_mem _ h)
      refine ht.cons fun b hb _ h => hu ?_
      rw [← h]
      exact List.mem_cons_of_mem _ (List.mem_of_mem_head? hb)
  start h := hu (List.mem_of_mem_head? h)
  unended := hs

theorem calm_of_blank {g : Text} (h : ∀ c ∈ g, isBlank c = true) : g.Calm :=
  calm_of_not_mem (fun hu => absurd (h _ hu) (by decide)) fun hs => absurd (h _ hs) (by decide)

/-- Blanks before a solid character are told by the text. -/
theorem blank_inj {g g' r r' : Text} {c c' : Char} (hg : ∀ a ∈ g, isBlank a = true)
    (hg' : ∀ a ∈ g', isBlank a = true) (hc : isBlank c = false) (hc' : isBlank c' = false)
    (h : g ++ c :: r = g' ++ c' :: r') : c :: r = c' :: r' := by
  have h1 := congrArg (List.dropWhile isBlank) h
  rw [List.dropWhile_append_of_pos hg, List.dropWhile_append_of_pos hg'] at h1
  simpa [hc, hc'] using h1

end Text

namespace Gap

/-- In plain text only blanks fill a gap. -/
theorem Fills.blanks {g : Text} (h : Fills g) (hp : g.Plain) : ∀ c ∈ g, Text.isBlank c = true := by
  induction h with
  | nil => exact fun _ h => absurd h List.not_mem_nil
  | @blank c g hc _ ih =>
    intro a ha
    rcases List.mem_cons.1 ha with rfl | ha
    · exact hc
    · exact ih (hp.part (List.suffix_cons c g).isInfix) a ha
  | @line b g _ _ _ =>
    exact (hp.no_line (List.prefix_append ['/', '/'] (b ++ '\n' :: g)).isInfix).elim
  | @block b g _ _ =>
    exact (hp.no_block (List.prefix_append ['/', '*'] (b ++ '*' :: '/' :: g)).isInfix).elim

theorem read_blanks {k : Reader} {g : Text} (hg : ∀ c ∈ g, Text.isBlank c = true) (r : Text) :
    read k .between (g ++ r) = (read k .between r).map (.after g) := by
  induction g with
  | nil =>
    rw [List.nil_append]
    exact Option.map_id.symm ▸ rfl
  | cons c g ih =>
    have hc := hg c List.mem_cons_self
    have hslash : c ≠ '/' := by
      rintro rfl
      exact absurd hc (by decide)
    rw [List.cons_append, read, if_pos hc, ih fun a ha => hg a (List.mem_cons_of_mem _ ha),
      Option.map_map]
    · rfl
    · exact fun _ h => absurd h hslash
    · exact fun _ h => absurd h hslash

theorem read_solid {k : Reader} {c : Char} (hc : Text.Solid c) (r : Text) :
    read k .between (c :: r) = k (c :: r) := by
  rw [read, if_neg (by simp [hc.not_blank])]
  · exact fun _ h => absurd h hc.not_slash
  · exact fun _ h => absurd h hc.not_slash

end Gap

namespace Literal

theorem solid_of_isDigit {c : Char} (h : Text.isDigit c = true) : Text.Solid c where
  not_blank := by
    cases hb : Text.isBlank c with
    | false => rfl
    | true =>
      rw [Text.isDigit_eq_false_of_isBlank hb] at h
      exact absurd h Bool.false_ne_true
  not_slash := by
    rintro rfl
    exact absurd h (by decide)

def IsNumeral (c : Char) : Prop := Text.isDigit c = true ∨ c ∈ ['-', '.', 'f', 'F']

theorem IsNumeral.solid {c : Char} (h : IsNumeral c) : Text.Solid c := by
  rcases h with h | h
  · exact solid_of_isDigit h
  · simp only [List.mem_cons, List.not_mem_nil, or_false] at h
    rcases h with rfl | rfl | rfl | rfl <;> exact ⟨by decide, by decide⟩

theorem isNumeral_minus {t : Text} : ∀ c ∈ (minus t).1, IsNumeral c := by
  unfold minus
  split
  · intro c hc
    exact .inr (by simp_all)
  · exact fun c hc => absurd hc List.not_mem_nil

theorem isNumeral_floatMark {t : Text} : ∀ c ∈ (floatMark t).1, IsNumeral c := by
  unfold floatMark
  split
  · intro c hc
    exact .inr (by simp_all)
  · intro c hc
    exact .inr (by simp_all)
  · exact fun c hc => absurd hc List.not_mem_nil

theorem isNumeral_number? {t a r : Text} (h : number? t = some (a, r)) : ∀ c ∈ a, IsNumeral c := by
  have hdigits : ∀ {t w r : Text}, digits t = (w, r) → ∀ c ∈ w, IsNumeral c :=
    fun h c hc => .inl (isDigit_of_digits h c hc)
  have hpoint : IsNumeral '.' := .inr (by decide)
  cases readsNumber_of_number? h with
  | fraction _ hf _ => exact List.forall_mem_cons.2 ⟨hpoint, hdigits hf⟩
  | point hw _ hf =>
    exact List.forall_mem_append.2 ⟨hdigits hw, List.forall_mem_cons.2 ⟨hpoint, hdigits hf⟩⟩
  | whole hw _ _ => exact hdigits hw

theorem isNumeral_float? {t a r : Text} (h : float? t = some (a, r)) : ∀ c ∈ a, IsNumeral c := by
  rw [float?_eq] at h
  obtain ⟨⟨number, r₂⟩, hn, he⟩ := Option.map_eq_some_iff.1 h
  simp only [Prod.mk.injEq] at he
  rw [← he.1, List.forall_mem_append, List.forall_mem_append]
  exact ⟨⟨isNumeral_minus, isNumeral_number? hn⟩, isNumeral_floatMark⟩

theorem isNumeral_int? {t a r : Text} (h : int? t = some (a, r)) : ∀ c ∈ a, IsNumeral c := by
  obtain ⟨sign, x, w, hm, hd, -, rfl⟩ := int?_eq_some_iff.1 h
  rw [List.forall_mem_append]
  refine ⟨?_, fun c hc => .inl (isDigit_of_digits hd c hc)⟩
  rw [show sign = (minus t).1 by rw [hm]]
  exact isNumeral_minus

end Literal

namespace Piece

/-- A piece that starts with a solid character and, written without a quote, is calm. -/
structure Quiet (p : Piece) : Prop where
  solid : ∀ a, p.Accepts a → ∃ c r, a = c :: r ∧ Text.Solid c
  calm : ∀ a, p.Accepts a → '"' ∉ a → a.Calm

theorem quiet_numeral {p : Param}
    (h : ∀ t a r, p.type.literal? t = some (a, r) → ∀ c ∈ a, Literal.IsNumeral c) :
    Quiet (.literal p) where
  solid a ha := by
    obtain ⟨t, r, ha⟩ := ha
    cases a with
    | nil => exact absurd rfl (ValueType.literal?_ne_nil ha)
    | cons c a => exact ⟨c, a, rfl, (h t _ r ha c List.mem_cons_self).solid⟩
  calm a ha _ := by
    obtain ⟨t, r, ha⟩ := ha
    have hall := h t a r ha
    refine Text.calm_of_not_mem (fun hu => ?_) fun hs => ?_
    · have := hall _ hu
      revert this
      unfold Literal.IsNumeral
      decide
    · have := hall _ hs
      revert this
      unfold Literal.IsNumeral
      decide

theorem quiet_literal (p : Param) : Quiet (.literal p) := by
  cases ht : p.type with
  | float => exact quiet_numeral fun t a r h => Literal.isNumeral_float? (by rwa [ht] at h)
  | int => exact quiet_numeral fun t a r h => Literal.isNumeral_int? (by rwa [ht] at h)
  | bool =>
    have hmem : ∀ a, (Piece.literal p).Accepts a →
        a ∈ ["true".toList, "false".toList, "1".toList, "0".toList] := by
      rintro a ⟨t, r, h⟩
      rw [ht] at h
      exact Literal.bool?_mem h
    constructor
    · intro a ha
      have := hmem a ha
      simp only [List.mem_cons, List.not_mem_nil, or_false] at this
      rcases this with rfl | rfl | rfl | rfl <;> exact ⟨_, _, rfl, by decide, by decide⟩
    · intro a ha _
      have := hmem a ha
      simp only [List.mem_cons, List.not_mem_nil, or_false] at this
      rcases this with rfl | rfl | rfl | rfl <;> exact ⟨by decide, by decide, by decide⟩
  | text =>
    have hquote : ∀ a, (Piece.literal p).Accepts a → ∃ r, a = '"' :: r := by
      rintro a ⟨t, r, h⟩
      rw [ht] at h
      replace h : Literal.text? t = some (a, r) := h
      unfold Literal.text? at h
      split at h
      · obtain ⟨⟨x, y⟩, -, he⟩ := Option.map_eq_some_iff.1 h
        exact ⟨x, (Prod.mk.inj he).1.symm⟩
      · simp at h
    constructor
    · intro a ha
      obtain ⟨r, rfl⟩ := hquote a ha
      exact ⟨_, r, rfl, by decide, by decide⟩
    · intro a ha hq
      obtain ⟨r, rfl⟩ := hquote a ha
      exact absurd List.mem_cons_self hq

end Piece

end RoutineSync
