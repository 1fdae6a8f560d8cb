import Mathlib.Data.List.TakeWhile
import RoutineSync.Proofs.Call.Plain
import RoutineSync.Proofs.Call.Quoted
/-!
The literals of each type, described without a reader, and read from every text that goes on with
something else than a number.
-/
set_option autoImplicit false

namespace RoutineSync

namespace Literal

/-- Digits, at least one. -/
structure IsDigits (w : Text) : Prop where
  ne_nil : w ≠ []
  digit : ∀ c ∈ w, Text.isDigit c = true

/-- Digits with a point before, among or behind them, or with none. -/
inductive IsNumber : Text → Prop where
  | whole {w : Text} : IsDigits w → IsNumber w
  | point {w f : Text} : IsDigits w → (∀ c ∈ f, Text.isDigit c = true) → IsNumber (w ++ '.' :: f)
  | fraction {f : Text} : IsDigits f → IsNumber ('.' :: f)

end Literal

/-- The texts that are literals of a type. -/
inductive ValueType.IsLiteral : ValueType → Text → Prop where
  | float {sign number mark : Text} : sign ∈ [[], ['-']] → Literal.IsNumber number →
      mark ∈ [[], ['f'], ['F']] → IsLiteral .float (sign ++ number ++ mark)
  | int {sign whole : Text} : sign ∈ [[], ['-']] → Literal.IsDigits whole →
      IsLiteral .int (sign ++ whole)
  | bool {w : Text} : w ∈ ["true".toList, "false".toList, "1".toList, "0".toList] → IsLiteral .bool w
  | text {cs : Text} : Value.quotable cs = true → IsLiteral .text ('"' :: (cs ++ ['"']))

namespace Literal

/-! What is read is a literal. -/

theorem minus_mem (t : Text) : (minus t).1 ∈ [[], ['-']] := by
  unfold minus
  split <;> simp

theorem floatMark_mem (t : Text) : (floatMark t).1 ∈ [[], ['f'], ['F']] := by
  unfold floatMark
  split <;> simp

theorem isNumber_of_number? {t a r : Text} (h : number? t = some (a, r)) : IsNumber a := by
  cases readsNumber_of_number? h with
  | fraction _ hf hne => exact .fraction ⟨hne, isDigit_of_digits hf⟩
  | point hw hne hf => exact .point ⟨hne, isDigit_of_digits hw⟩ (isDigit_of_digits hf)
  | whole hw hne _ => exact .whole ⟨hne, isDigit_of_digits hw⟩

theorem isLiteral_of_literal? {type : ValueType} {t a r : Text} (h : type.literal? t = some (a, r)) :
    type.IsLiteral a := by
  cases type with
  | float =>
    replace h : float? t = some (a, r) := h
    rw [float?_eq] at h
    obtain ⟨⟨number, r₂⟩, hn, he⟩ := Option.map_eq_some_iff.1 h
    rw [← (Prod.mk.inj he).1]
    exact .float (minus_mem t) (isNumber_of_number? hn) (floatMark_mem r₂)
  | int =>
    obtain ⟨sign, x, w, hm, hd, hne, rfl⟩ := int?_eq_some_iff.1 h
    refine .int ?_ ⟨hne, isDigit_of_digits hd⟩
    rw [show sign = (minus t).1 by rw [hm]]
    exact minus_mem t
  | bool => exact .bool (bool?_mem h)
  | text =>
    obtain ⟨cs, hcs, rfl⟩ := exists_of_text? h
    exact .text hcs

/-! A literal is read to its end. -/

/-- What does not go on with a number. -/
def Apart (r : Text) : Prop := ∀ c ∈ r.head?, ¬IsNumeral c

theorem digits_append_of_head {w r : Text} (hw : ∀ c ∈ w, Text.isDigit c = true)
    (hr : ∀ c ∈ r.head?, Text.isDigit c = false) : digits (w ++ r) = (w, r) := by
  cases r with
  | nil =>
    rw [List.append_nil, digits, List.takeWhile_eq_self_iff.2 hw, List.dropWhile_eq_nil_iff.2 hw]
  | cons d r => exact digits_append_cons hw (hr d rfl) r

theorem minus_append_of_head {sign x : Text} (hs : sign ∈ [[], ['-']]) (hx : x.head? ≠ some '-') :
    minus (sign ++ x) = (sign, x) := by
  simp only [List.mem_cons, List.not_mem_nil, or_false] at hs
  rcases hs with rfl | rfl
  · rw [List.nil_append]
    unfold minus
    split
    · exact absurd rfl hx
    · rfl
  · rfl

theorem floatMark_append_of_head {mark r : Text} (hm : mark ∈ [[], ['f'], ['F']])
    (hr : ∀ c ∈ r.head?, c ≠ 'f' ∧ c ≠ 'F') : floatMark (mark ++ r) = (mark, r) := by
  simp only [List.mem_cons, List.not_mem_nil, or_false] at hm
  rcases hm with rfl | rfl | rfl
  · rw [List.nil_append]
    unfold floatMark
    split
    · exact absurd rfl (hr 'f' rfl).1
    · exact absurd rfl (hr 'F' rfl).2
    · rfl
  · rfl
  · rfl

theorem IsDigits.head?_ne {w : Text} (h : IsDigits w) {c : Char} (hc : Text.isDigit c = false)
    (r : Text) : (w ++ r).head? ≠ some c := by
  cases w with
  | nil => exact absurd rfl h.ne_nil
  | cons d w =>
    intro heq
    have hd := h.digit d List.mem_cons_self
    rw [Option.some.inj heq, hc] at hd
    exact Bool.false_ne_true hd

theorem IsNumber.head?_ne_minus {n : Text} (h : IsNumber n) (r : Text) : (n ++ r).head? ≠ some '-' := by
  cases h with
  | whole hw => exact hw.head?_ne (by decide) r
  | point hw _ =>
    rw [List.append_assoc]
    exact hw.head?_ne (by decide) _
  | fraction _ => exact fun h => absurd (Option.some.inj h) (by decide)

theorem number?_append_of_head {n r : Text} (h : IsNumber n)
    (hr : ∀ c ∈ r.head?, Text.isDigit c = false ∧ c ≠ '.') : number? (n ++ r) = some (n, r) := by
  have hdigit := fun c hc => (hr c hc).1
  refine ReadsNumber.number?_eq ?_
  cases h with
  | whole hw =>
    refine .whole (digits_append_of_head hw.digit hdigit) hw.ne_nil ?_
    rintro x rfl
    exact (hr '.' rfl).2 rfl
  | @point w f hw hf =>
    rw [List.append_assoc, List.cons_append]
    exact .point (digits_append_cons hw.digit (by decide) _) hw.ne_nil (digits_append_of_head hf hdigit)
  | @fraction f hf =>
    have hpoint : digits ([] ++ '.' :: (f ++ r)) = ([], '.' :: (f ++ r)) :=
      digits_append_cons (fun _ h => absurd h List.not_mem_nil) (by decide) _
    exact .fraction hpoint (digits_append_of_head hf.digit hdigit) hf.ne_nil

/-- A literal is read where nothing follows that would go on with it. -/
theorem literal?_append {type : ValueType} {a r : Text} (h : type.IsLiteral a) (hr : Apart r) :
    type.literal? (a ++ r) = some (a, r) := by
  have hdigit : ∀ c ∈ r.head?, Text.isDigit c = false := fun c hc =>
    Bool.eq_false_iff.2 fun hd => hr c hc (.inl hd)
  have hother : ∀ c ∈ r.head?, c ∉ ['-', '.', 'f', 'F'] := fun c hc hm => hr c hc (.inr hm)
  cases h with
  | @float sign number mark hs hn hm =>
    have hmark : ∀ c ∈ r.head?, c ≠ 'f' ∧ c ≠ 'F' := fun c hc => by
      have := hother c hc
      simp_all
    have hbehind : ∀ c ∈ (mark ++ r).head?, Text.isDigit c = false ∧ c ≠ '.' := by
      simp only [List.mem_cons, List.not_mem_nil, or_false] at hm
      rcases hm with rfl | rfl | rfl
      · exact fun c hc => ⟨hdigit c hc, by have := hother c hc; simp_all⟩
      · rintro c hc
        obtain rfl := Option.mem_some_iff.1 hc
        decide
      · rintro c hc
        obtain rfl := Option.mem_some_iff.1 hc
        decide
    show float? _ = _
    rw [float?_eq, List.append_assoc, List.append_assoc, minus_append_of_head hs (hn.head?_ne_minus _),
      number?_append_of_head hn hbehind, Option.map_some, floatMark_append_of_head hm hmark,
      List.append_assoc]
  | @int sign whole hs hw =>
    refine int?_eq_some_iff.2 ⟨sign, whole ++ r, whole, ?_, digits_append_of_head hw.digit hdigit,
      hw.ne_nil, rfl⟩
    rw [List.append_assoc, minus_append_of_head hs (hw.head?_ne (by decide) r)]
  | bool hw =>
    simp only [List.mem_cons, List.not_mem_nil, or_false] at hw
    rcases hw with rfl | rfl | rfl | rfl <;> rfl
  | @text cs hcs =>
    show text? ('"' :: (cs ++ ['"'] ++ r)) = _
    rw [text?, List.append_assoc, List.singleton_append, closing?_quotable hcs]
    rfl

end Literal

end RoutineSync
