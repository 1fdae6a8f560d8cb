import RoutineSync.Proofs.Call.Quoted
import RoutineSync.Proofs.Call.Steady
/-!
Calls on lines of their own. What is found on a line, wherever it starts there, ends on the line: the
next line starts with a call, and only a block comment that the line opens can go on behind it.
-/
set_option autoImplicit false

namespace RoutineSync

namespace Text

/-- A line and the text behind it, which starts with a call if it is not empty. No block comment
that the line opens ends in that text. -/
structure LineEnd (x r : Text) : Prop where
  unbroken : '\n' ∉ x
  opens : ∀ c ∈ r.head?, c = 'a'
  closed : ['/', '*'] <:+: x → ¬['*', '/'] <:+: r

theorem LineEnd.right {x y r : Text} (h : LineEnd (x ++ y) r) : LineEnd y r where
  unbroken hy := h.unbroken (List.mem_append_right x hy)
  opens := h.opens
  closed hy := h.closed (hy.trans (List.suffix_append x y).isInfix)

/-- What has no newline and starts on a line ends on it. -/
theorem exists_of_unbroken {x r a t : Text} (ha : '\n' ∉ a) (h : x ++ '\n' :: r = a ++ t) :
    ∃ y, x = a ++ y ∧ t = y ++ '\n' :: r := by
  rcases List.append_eq_append_iff.1 h with ⟨y, rfl, hy⟩ | ⟨y, rfl, rfl⟩
  · cases y with
    | nil => exact ⟨[], by simp, hy.symm⟩
    | cons d y =>
      obtain ⟨rfl, -⟩ := List.cons.inj hy
      simp at ha
  · exact ⟨y, rfl, rfl⟩

end Text

namespace Gap
open Text (LineEnd)

/-- No gap leads from the start of a call to anything else. -/
theorem Fills.not_before_call {g t : Text} {c : Char} (hg : Fills g) (hc : c ≠ 'a')
    (h : ∀ d ∈ (g ++ c :: t).head?, d = 'a') : False := by
  cases hg with
  | nil => exact hc (h c rfl)
  | @blank b _ hb _ =>
    obtain rfl := h b rfl
    exact absurd hb (by decide)
  | line _ _ => exact absurd (h '/' rfl) (by decide)
  | block _ => exact absurd (h '/' rfl) (by decide)

theorem Fills.on_line {g x r t : Text} {c : Char} (hg : Fills g) (hl : LineEnd x r) (hc : c ≠ 'a')
    (h : x ++ '\n' :: r = g ++ c :: t) : ∃ y, x = g ++ y := by
  induction hg generalizing x with
  | nil => exact ⟨x, rfl⟩
  | @blank b g _ hg ih =>
    cases x with
    | nil =>
      have hr : r = g ++ c :: t := (List.cons.inj h).2
      exact (hg.not_before_call hc (hr ▸ hl.opens)).elim
    | cons d x =>
      obtain ⟨rfl, hcut⟩ := List.cons.inj h
      obtain ⟨y, rfl⟩ := ih (LineEnd.right (x := [d]) hl) hcut
      exact ⟨y, rfl⟩
  | @line b g hb hg _ =>
    have hcut : x ++ '\n' :: r = '/' :: '/' :: b ++ '\n' :: (g ++ c :: t) := by rw [h]; simp
    obtain ⟨y, rfl, hy⟩ := Text.exists_of_unbroken (by simp [hb]) hcut
    cases y with
    | nil =>
      have hr : r = g ++ c :: t := (List.cons.inj hy).2.symm
      exact (hg.not_before_call hc (hr ▸ hl.opens)).elim
    | cons d y =>
      obtain ⟨rfl, -⟩ := List.cons.inj hy
      exact absurd hl.unbroken (by simp)
  | @block b g hg ih =>
    have hcut : x ++ '\n' :: r = ['/', '*'] ++ (b ++ ['*', '/'] ++ (g ++ c :: t)) := by rw [h]; simp
    obtain ⟨x, rfl, hx⟩ := Text.exists_of_unbroken (by decide) hcut
    rcases List.append_eq_append_iff.1 hx with ⟨y, rfl, hy⟩ | ⟨y, hcomment, hy⟩
    · obtain ⟨z, rfl⟩ := ih (LineEnd.right (x := ['/', '*'] ++ (b ++ ['*', '/'])) (by simpa using hl)) hy.symm
      exact ⟨z, by simp⟩
    · cases y with
      | nil =>
        rw [List.append_nil] at hcomment
        have hnil : LineEnd [] r := LineEnd.right (x := ['/', '*'] ++ x) (by simpa using hl)
        obtain ⟨z, hz⟩ := ih hnil hy
        exact ⟨z, by simp [← hcomment, ← hz]⟩
      | cons d y =>
        -- the comment goes on behind the line
        obtain ⟨rfl, hr⟩ := List.cons.inj hy
        have hend : ['*', '/'] <:+ y := by
          rcases List.suffix_or_suffix_of_suffix (hcomment ▸ List.suffix_append b _)
            (List.suffix_append x ('\n' :: y)) with hs | hs
          · exact (List.suffix_cons_iff.1 hs).resolve_left (by simp)
          · exact absurd (hs.subset List.mem_cons_self) (by decide)
        refine absurd ?_ (hl.closed (List.prefix_append _ _).isInfix)
        rw [hr]
        exact hend.isInfix.trans (List.prefix_append y _).isInfix

end Gap

/-- A piece without a newline that does not start like a call. -/
structure Piece.Inline (p : Piece) : Prop where
  unbroken : ∀ a, p.Accepts a → '\n' ∉ a
  starts : ∀ a, p.Accepts a → ∃ c r, a = c :: r ∧ c ≠ 'a'

namespace Piece

theorem inline_token {w : Text} (hw : '\n' ∉ w) (h : ∃ c r, w = c :: r ∧ c ≠ 'a') :
    Inline (.token w) where
  unbroken a ha := by
    obtain rfl : a = w := ha
    exact hw
  starts a ha := by
    obtain rfl : a = w := ha
    exact h

theorem inline_numeral {p : Param}
    (h : ∀ t a r, p.type.literal? t = some (a, r) → ∀ c ∈ a, Literal.IsNumeral c) :
    Inline (.literal p) where
  unbroken a ha hn := by
    obtain ⟨t, r, ha⟩ := ha
    have := h t a r ha _ hn
    revert this
    unfold Literal.IsNumeral
    decide
  starts a ha := by
    obtain ⟨t, r, ha⟩ := ha
    obtain ⟨c, a, rfl⟩ := List.exists_cons_of_ne_nil (ValueType.literal?_ne_nil ha)
    refine ⟨c, a, rfl, ?_⟩
    rintro rfl
    have := h t _ r ha _ List.mem_cons_self
    revert this
    unfold Literal.IsNumeral
    decide

theorem inline_literal (p : Param) : Inline (.literal p) := by
  cases ht : p.type with
  | float => exact inline_numeral fun t a r h => Literal.isNumeral_float? (by rwa [ht] at h)
  | int => exact inline_numeral fun t a r h => Literal.isNumeral_int? (by rwa [ht] at h)
  | bool =>
    have hmem : ∀ a, (Piece.literal p).Accepts a →
        a ∈ ["true".toList, "false".toList, "1".toList, "0".toList] := by
      rintro a ⟨t, r, h⟩
      rw [ht] at h
      exact Literal.bool?_mem h
    constructor
    · intro a ha
      have := hmem a ha
      simp only [List.mem_cons, List.not_mem_nil, or_false] at this
      rcases this with rfl | rfl | rfl | rfl <;> decide
    · intro a ha
      have := hmem a ha
      simp only [List.mem_cons, List.not_mem_nil, or_false] at this
      rcases this with rfl | rfl | rfl | rfl <;> exact ⟨_, _, rfl, by decide⟩
  | text =>
    have hquote : ∀ a, (Piece.literal p).Accepts a →
        ∃ cs, Value.quotable cs = true ∧ a = '"' :: (cs ++ ['"']) := by
      rintro a ⟨t, r, h⟩
      rw [ht] at h
      exact Literal.exists_of_text? h
    constructor
    · intro a ha
      obtain ⟨cs, hcs, rfl⟩ := hquote a ha
      simp [Value.unbroken_of_quotable hcs]
    · intro a ha
      obtain ⟨cs, -, rfl⟩ := hquote a ha
      exact ⟨_, _, rfl, by decide⟩

end Piece

namespace Grammar
open Text (LineEnd)

inductive Inline : Grammar → Prop where
  | done : Inline .done
  | piece {p : Piece} {g : Grammar} : p.Inline → Inline g → Inline (.piece p g)
  | either {g h : Grammar} : Inline g → Inline h → Inline (.either g h)

theorem Inline.on_line {g : Grammar} {x r : Text} {m : CallMatch} (hg : g.Inline) (hl : LineEnd x r)
    (h : g.read .stop (x ++ '\n' :: r) = some m) : m.text <+: x := by
  induction hg generalizing x m with
  | done =>
    obtain rfl := Option.some.inj h
    exact List.nil_prefix
  | @piece p g hp _ ih =>
    obtain ⟨gap, t, n, ht, hgap, hread, rfl⟩ := Gap.exists_of_read h
    obtain ⟨a, t, n, rfl, hs, hn, rfl⟩ := Piece.exists_of_read hread
    have ha := Piece.accepts_of_split? hs
    obtain ⟨c, a', rfl, hc⟩ := hp.starts a ha
    obtain ⟨y, rfl⟩ := Gap.Fills.on_line hgap hl hc ht
    rw [List.append_assoc] at ht
    obtain ⟨z, rfl, rfl⟩ := Text.exists_of_unbroken (hp.unbroken _ ha) (List.append_cancel_left ht)
    obtain ⟨w, rfl⟩ := ih hl.right.right hn
    exact ⟨w, by simp [Piece.text_before]⟩
  | either _ _ ih1 ih2 =>
    rcases Option.or_eq_some_iff.1 h with h | ⟨-, h⟩
    · exact ih1 hl h
    · exact ih2 hl h

end Grammar

namespace CallShape
open Text (LineEnd)

theorem inline_closing : closing.Inline :=
  .piece (Piece.inline_token (by decide) ⟨_, _, rfl, by decide⟩)
    (.piece (Piece.inline_token (by decide) ⟨_, _, rfl, by decide⟩) .done)

theorem inline_arguments (first : Bool) (ps : List Param) : (arguments first ps).Inline := by
  induction ps generalizing first with
  | nil => exact inline_closing
  | cons p ps ih =>
    have hargument : (Grammar.piece (.literal p) (arguments false ps)).Inline :=
      .piece (Piece.inline_literal p) (ih false)
    have hseparated : (if first then Grammar.piece (.literal p) (arguments false ps)
        else .piece (.token [',']) (.piece (.literal p) (arguments false ps))).Inline := by
      split
      · exact hargument
      · exact .piece (Piece.inline_token (by decide) ⟨_, _, rfl, by decide⟩) hargument
    rw [arguments]
    split
    · exact .either hseparated inline_closing
    · exact hseparated

theorem inline_grammar (s : CallShape) : s.grammar.Inline := by
  have hname : (Piece.token s.kind.callName.toList).Inline := by
    cases s.kind <;> exact Piece.inline_token (by decide) ⟨_, _, rfl, by decide⟩
  exact .piece (Piece.inline_token (by decide) ⟨_, _, rfl, by decide⟩) (.piece hname
    (.piece (Piece.inline_token (by decide) ⟨_, _, rfl, by decide⟩) (inline_arguments true s.params)))

/-- A call that is found on a line is on the line. -/
theorem match?_on_line {s : CallShape} {x r : Text} {m : CallMatch} (hl : LineEnd x r)
    (h : s.match? (x ++ '\n' :: r) = some m) : m.text <+: x := by
  obtain ⟨a, t, n, ht, hs, hn, rfl⟩ := Piece.exists_of_read h
  obtain rfl : a = "auton".toList := Piece.accepts_of_split? hs
  obtain ⟨y, rfl, rfl⟩ := Text.exists_of_unbroken (by decide) ht
  obtain ⟨z, rfl⟩ := s.inline_grammar.on_line hl.right hn
  exact ⟨z, by simp [Piece.text_before]⟩

end CallShape

end RoutineSync
