import Mathlib.Computability.Language
import RoutineSync.Proofs.Call.Sources
import RoutineSync.Proofs.Call.Spelling
/-!
The literals of each type as a regular language, and the values that read back from what is written
for them. Main statement: a value can be written exactly if its written form is in the language of its
type and gives a value that compares equal.
-/
set_option autoImplicit false

namespace RoutineSync

open Computability

namespace Literal

def one (p : Char → Prop) : Language Char := {t : Text | ∃ c, p c ∧ t = [c]}

def word (w : Text) : Language Char := {w}

def maybe (l : Language Char) : Language Char := 1 + l

def many (l : Language Char) : Language Char := l * l∗

theorem mem_one_iff {p : Char → Prop} {t : Text} : t ∈ one p ↔ ∃ c, p c ∧ t = [c] := Iff.rfl

theorem mem_word_iff {w t : Text} : t ∈ word w ↔ t = w := Iff.rfl

theorem mem_maybe_iff {l : Language Char} {t : Text} : t ∈ maybe l ↔ t = [] ∨ t ∈ l := by
  rw [maybe, Language.mem_add, Language.mem_one]

theorem cons_mem_kstar {l : Language Char} {x t : Text} (hx : x ∈ l) (ht : t ∈ l∗) : x ++ t ∈ l∗ := by
  obtain ⟨parts, rfl, hparts⟩ := Language.mem_kstar.1 ht
  exact Language.join_mem_kstar (L := x :: parts) (List.forall_mem_cons.2 ⟨hx, hparts⟩)

theorem mem_kstar_one_iff {p : Char → Prop} {t : Text} : t ∈ (one p)∗ ↔ ∀ c ∈ t, p c := by
  constructor
  · intro h
    obtain ⟨parts, rfl, hparts⟩ := Language.mem_kstar.1 h
    intro c hc
    obtain ⟨part, hpart, hc⟩ := List.mem_flatten.1 hc
    obtain ⟨d, hd, rfl⟩ := mem_one_iff.1 (hparts part hpart)
    rwa [List.mem_singleton.1 hc]
  · intro h
    induction t with
    | nil => exact Language.nil_mem_kstar _
    | cons c t ih =>
      obtain ⟨hc, ht⟩ := List.forall_mem_cons.1 h
      exact cons_mem_kstar (x := [c]) (mem_one_iff.2 ⟨c, hc, rfl⟩) (ih ht)

def digit : Language Char := one fun c => Text.isDigit c = true

theorem mem_digits_iff {t : Text} : t ∈ digit∗ ↔ ∀ c ∈ t, Text.isDigit c = true := mem_kstar_one_iff

theorem mem_many_digit_iff {t : Text} : t ∈ many digit ↔ IsDigits t := by
  rw [many, Language.mem_mul]
  constructor
  · rintro ⟨x, hx, w, hw, rfl⟩
    obtain ⟨c, hc, rfl⟩ := mem_one_iff.1 hx
    exact ⟨List.cons_ne_nil c w, List.forall_mem_cons.2 ⟨hc, mem_digits_iff.1 hw⟩⟩
  · intro h
    obtain ⟨c, w, rfl⟩ := List.exists_cons_of_ne_nil h.ne_nil
    obtain ⟨hc, hw⟩ := List.forall_mem_cons.1 h.digit
    exact ⟨[c], mem_one_iff.2 ⟨c, hc, rfl⟩, w, mem_digits_iff.2 hw, rfl⟩

/-- Digits with a point before, among or behind them, or with none. -/
def number : Language Char :=
  many digit * maybe (word ['.']) * digit∗ + word ['.'] * many digit

theorem mem_number_iff {t : Text} : t ∈ number ↔ IsNumber t := by
  rw [number, Language.mem_add]
  constructor
  · rintro (h | h)
    · obtain ⟨x, hx, f, hf, rfl⟩ := Language.mem_mul.1 h
      obtain ⟨w, hw, point, hpoint, rfl⟩ := Language.mem_mul.1 hx
      have hw := mem_many_digit_iff.1 hw
      have hf := mem_digits_iff.1 hf
      rcases mem_maybe_iff.1 hpoint with rfl | hpoint
      · rw [List.append_nil]
        refine .whole ⟨List.append_ne_nil_of_left_ne_nil hw.ne_nil f, fun c hc => ?_⟩
        exact (List.mem_append.1 hc).elim (hw.digit c) (hf c)
      · rw [mem_word_iff.1 hpoint, List.append_assoc]
        exact .point hw hf
    · obtain ⟨point, hpoint, f, hf, rfl⟩ := Language.mem_mul.1 h
      rw [mem_word_iff.1 hpoint]
      exact .fraction (mem_many_digit_iff.1 hf)
  · intro h
    cases h with
    | whole hw =>
      refine .inl (Language.mem_mul.2 ⟨t, Language.mem_mul.2 ⟨t, mem_many_digit_iff.2 hw, [],
        mem_maybe_iff.2 (.inl rfl), List.append_nil t⟩, [], Language.nil_mem_kstar _,
        List.append_nil t⟩)
    | @point w f hw hf =>
      refine .inl (Language.mem_mul.2 ⟨w ++ ['.'], ?_, f, mem_digits_iff.2 hf, by simp⟩)
      exact Language.append_mem_mul (mem_many_digit_iff.2 hw) (mem_maybe_iff.2 (.inr rfl))
    | @fraction f hf =>
      exact .inr (Language.append_mem_mul (a := ['.']) rfl (mem_many_digit_iff.2 hf))

/-- A character between quotes: no quote, backslash or newline, or a backslash with any character
other than a newline. -/
def quotedUnit : Language Char :=
  one (fun c => c ≠ '"' ∧ c ≠ '\\' ∧ c ≠ '\n') + word ['\\'] * one fun c => c ≠ '\n'

theorem quotable_append_of_mem_unit {x : Text} (hx : x ∈ quotedUnit) (t : Text) :
    Value.quotable (x ++ t) = Value.quotable t := by
  rcases (Language.mem_add _ _ _).1 hx with hx | hx
  · obtain ⟨c, ⟨hquote, hescape, hline⟩, rfl⟩ := mem_one_iff.1 hx
    simp [Value.quotable_cons hescape, hquote, hline]
  · obtain ⟨y, hy, z, hz, rfl⟩ := Language.mem_mul.1 hx
    obtain ⟨c, hline, rfl⟩ := mem_one_iff.1 hz
    rw [mem_word_iff.1 hy]
    simp [Value.quotable, hline]

/-- The check that takes a backslash and the character behind it in one step accepts a regular
language. -/
theorem mem_kstar_quotedUnit_iff {cs : Text} : cs ∈ quotedUnit∗ ↔ Value.quotable cs = true := by
  constructor
  · intro h
    obtain ⟨parts, rfl, hparts⟩ := Language.mem_kstar.1 h
    induction parts with
    | nil => rfl
    | cons x parts ih =>
      obtain ⟨hx, hparts⟩ := List.forall_mem_cons.1 hparts
      rw [List.flatten_cons, quotable_append_of_mem_unit hx]
      exact ih hparts (Language.join_mem_kstar hparts)
  · intro h
    fun_induction Value.quotable cs with
    | case1 => exact Language.nil_mem_kstar _
    | case2 => exact absurd h Bool.false_ne_true
    | case3 c cs ih =>
      simp only [Bool.and_eq_true, bne_iff_ne] at h
      have hpair : ['\\', c] ∈ quotedUnit :=
        .inr (Language.append_mem_mul (a := ['\\']) rfl (mem_one_iff.2 ⟨c, h.1, rfl⟩))
      exact cons_mem_kstar hpair (ih h.2)
    | case4 c cs hlast hpair ih =>
      simp only [Bool.and_eq_true, bne_iff_ne] at h
      have hone : [c] ∈ quotedUnit :=
        .inl (mem_one_iff.2 ⟨c, ⟨h.1.1, ne_escape hlast hpair, h.1.2⟩, rfl⟩)
      exact cons_mem_kstar hone (ih h.2)

end Literal

namespace ValueType
open Literal

/-- The regular expression of a type's literals. -/
def language : ValueType → Language Char
  | .float => maybe (word ['-']) * number * maybe (word ['f'] + word ['F'])
  | .int => maybe (word ['-']) * many digit
  | .bool => word "true".toList + word "false".toList + word ['1'] + word ['0']
  | .text => word ['"'] * quotedUnit∗ * word ['"']

theorem mem_sign_iff {t : Text} : t ∈ maybe (word ['-']) ↔ t ∈ [[], ['-']] := by
  rw [mem_maybe_iff, mem_word_iff, List.mem_pair]

theorem mem_mark_iff {t : Text} :
    t ∈ maybe (word ['f'] + word ['F']) ↔ t ∈ [[], ['f'], ['F']] := by
  rw [mem_maybe_iff, Language.mem_add, mem_word_iff, mem_word_iff, List.mem_cons, List.mem_pair]

theorem mem_language_iff_isLiteral {type : ValueType} {t : Text} :
    t ∈ type.language ↔ type.IsLiteral t := by
  cases type with
  | float =>
    constructor
    · intro h
      obtain ⟨x, hx, mark, hmark, rfl⟩ := Language.mem_mul.1 h
      obtain ⟨sign, hsign, n, hn, rfl⟩ := Language.mem_mul.1 hx
      exact .float (mem_sign_iff.1 hsign) (mem_number_iff.1 hn) (mem_mark_iff.1 hmark)
    · rintro ⟨hsign, hn, hmark⟩
      exact Language.append_mem_mul (Language.append_mem_mul (mem_sign_iff.2 hsign)
        (mem_number_iff.2 hn)) (mem_mark_iff.2 hmark)
  | int =>
    constructor
    · intro h
      obtain ⟨sign, hsign, whole, hwhole, rfl⟩ := Language.mem_mul.1 h
      exact .int (mem_sign_iff.1 hsign) (mem_many_digit_iff.1 hwhole)
    · rintro ⟨⟩
      rename_i hsign hwhole
      exact Language.append_mem_mul (mem_sign_iff.2 hsign) (mem_many_digit_iff.2 hwhole)
  | bool =>
    simp only [language, Language.mem_add, mem_word_iff]
    constructor
    · intro h
      exact .bool (by simpa [or_assoc] using h)
    · rintro ⟨⟩
      rename_i h
      simpa [or_assoc] using h
  | text =>
    constructor
    · intro h
      obtain ⟨x, hx, close, hclose, rfl⟩ := Language.mem_mul.1 h
      obtain ⟨opening, hopening, cs, hcs, rfl⟩ := Language.mem_mul.1 hx
      rw [mem_word_iff.1 hopening, mem_word_iff.1 hclose]
      exact .text (mem_kstar_quotedUnit_iff.1 hcs)
    · rintro ⟨⟩
      rename_i cs hcs
      exact Language.append_mem_mul (a := '"' :: cs) (b := ['"'])
        (Language.append_mem_mul (a := ['"']) rfl (mem_kstar_quotedUnit_iff.2 hcs)) rfl

/-- Reading a literal at the start of a text takes the whole of it where it is in the language. -/
theorem mem_language_iff {type : ValueType} {t : Text} :
    t ∈ type.language ↔ type.literal? t = some (t, []) := by
  rw [mem_language_iff_isLiteral]
  constructor
  · intro h
    have := literal?_append h (r := []) nofun
    rwa [List.append_nil] at this
  · exact isLiteral_of_literal?

end ValueType

namespace Literal

theorem toLower_ne_of_isDigit {c : Char} (h : Text.isDigit c = true) : c.toLower ≠ 'n' := by
  by_cases hc : c.toNat < 128
  · have hall : ∀ n < 128, Text.isDigit (Char.ofNat n) = true → (Char.ofNat n).toLower ≠ 'n' := by
      decide +kernel
    have := hall c.toNat hc
    rw [Char.ofNat_toNat] at this
    exact this h
  · intro heq
    unfold Char.toLower at heq
    split at heq
    · rename_i hle
      have h1 : c.toNat ≤ 90 := UInt32.le_iff_toNat_le.1 hle.2
      omega
    · rw [heq] at hc
      exact hc (by decide)

theorem mem_withoutMarks {t : Text} {c : Char} (h : c ∈ withoutMarks t) : c ∈ t :=
  List.mem_reverse.1 ((List.dropWhile_sublist _).subset (List.mem_reverse.1 h))

theorem IsNumber.toLower_ne {n : Text} (h : IsNumber n) {c : Char} (hc : c ∈ n) : c.toLower ≠ 'n' := by
  have hpoint : Char.toLower '.' ≠ 'n' := by decide
  cases h with
  | whole hw => exact toLower_ne_of_isDigit (hw.digit c hc)
  | point hw hf =>
    rcases List.mem_append.1 hc with hc | hc
    · exact toLower_ne_of_isDigit (hw.digit c hc)
    · rcases List.mem_cons.1 hc with rfl | hc
      · exact hpoint
      · exact toLower_ne_of_isDigit (hf c hc)
  | fraction hf =>
    rcases List.mem_cons.1 hc with rfl | hc
    · exact hpoint
    · exact toLower_ne_of_isDigit (hf.digit c hc)

end Literal

theorem mem_signAndRest {t : Text} {c : Char} (h : c ∈ (signAndRest t).2) : c ∈ t := by
  unfold signAndRest at h
  split at h
  · exact List.mem_cons_of_mem _ h
  · exact List.mem_cons_of_mem _ h
  · exact h

theorem Binary64.ne_nan_of_ofText? {t : Text} {x : Binary64} (h : ofText? t = some x)
    (ht : ∀ c ∈ t, c.toLower ≠ 'n') : x ≠ .nan := by
  rintro rfl
  unfold ofText? at h
  dsimp only at h
  split at h
  · rename_i hnamed
    have hmap := beq_iff_eq.1 hnamed
    have hmem : 'n' ∈ (signAndRest t).2.map Char.toLower := hmap ▸ by decide
    obtain ⟨c, hc, heq⟩ := List.mem_map.1 hmem
    exact ht c (mem_signAndRest hc) heq
  · split at h
    · exact absurd (Option.some.inj h) (by simp)
    · obtain ⟨p, -, hp⟩ := Option.map_eq_some_iff.1 h
      unfold ofDecimal ofMagnitude at hp
      split at hp <;> exact absurd hp (by simp)

namespace Value
variable {v : Value}

theorem isLiteral_source (h : v.isWritable = true) : v.type.IsLiteral v.source :=
  Literal.isLiteral_of_literal? (literal?_source h (.inr rfl) [])

theorem eqv_self (h : v.isWritable = true) : v.eqv v = true := by
  cases v with
  | float x =>
    refine (Binary64.eqv_self_iff x).2 ?_
    rintro rfl
    exact Bool.false_ne_true h
  | _ => exact beq_self_eq_true _

theorem eqv_self_of_read? {type : ValueType} {l : Text} {v : Value} (h : type.IsLiteral l)
    (hv : type.read? l = some v) : v.eqv v = true := by
  cases v with
  | float x =>
    obtain rfl : type = .float := (ValueType.type_of_read? hv).symm
    obtain ⟨y, hy, heq⟩ := Option.map_eq_some_iff.1 hv
    obtain rfl := float.inj heq
    refine (Binary64.eqv_self_iff y).2 (Binary64.ne_nan_of_ofText? hy fun c hc => ?_)
    have hsign : ∀ s ∈ [[], ['-']], s.all (fun c => c.toLower != 'n') = true := by decide
    have hmark : ∀ m ∈ [[], ['f'], ['F']], m.all (fun c => c.toLower != 'n') = true := by decide
    simp only [List.all_eq_true, bne_iff_ne] at hsign hmark
    cases h with
    | float hs hn hm =>
      rcases List.mem_append.1 (Literal.mem_withoutMarks hc) with hc | hc
      · rcases List.mem_append.1 hc with hc | hc
        · exact hsign _ hs c hc
        · exact hn.toLower_ne hc
      · exact hmark _ hm c hc
  | _ => exact beq_self_eq_true _
/-- Whether a value can be written decides whether what is written for it is a literal, as a whole,
from which the value is read. -/
theorem isWritable_iff_reads_back (v : Value) :
    v.isWritable = true ↔
      v.source ∈ v.type.language ∧ ∃ w, v.type.read? v.source = some w ∧ w.eqv v = true := by
  constructor
  · intro h
    exact ⟨ValueType.mem_language_iff_isLiteral.2 (isLiteral_source h), v, read?_source h, eqv_self h⟩
  · rintro ⟨h, -⟩
    cases v with
    | float x =>
      -- neither not-a-number nor an infinite number is written in digits
      rw [ValueType.mem_language_iff] at h
      cases x with
      | finite negative m => rfl
      | nan => exact absurd h (by decide)
      | infinite negative => cases negative <;> exact absurd h (by decide)
    | int n => rfl
    | bool b => rfl
    | text cs =>
      obtain ⟨x, hx, close, hclose, he⟩ := Language.mem_mul.1 h
      obtain ⟨opening, hopening, ds, hds, rfl⟩ := Language.mem_mul.1 hx
      rw [Literal.mem_word_iff.1 hopening, Literal.mem_word_iff.1 hclose] at he
      obtain rfl : ds = cs := List.append_cancel_right (List.cons.inj he).2
      exact Literal.mem_kstar_quotedUnit_iff.1 hds

end Value

end RoutineSync
