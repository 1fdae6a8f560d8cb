import Mathlib.Data.List.DropRight
import RoutineSync.Proofs.Call.Plain
import RoutineSync.Proofs.Call.Quoted
import RoutineSync.Proofs.Decimal.RoundTrip
/-!
The text that a call writes for a value, where a call can write it, is a literal of the value's type
and has the value.
-/
set_option autoImplicit false

namespace RoutineSync

namespace Literal
open Text (isAsciiDigit isDigit_of_isAsciiDigit)

/-- What can stand behind an argument. -/
def Ends (d : Char) : Prop := d = ',' ∨ d = ')'

theorem Ends.not_digit {d : Char} (h : Ends d) : Text.isDigit d = false := by
  rcases h with rfl | rfl <;> decide

theorem minus_digit {c : Char} (r : Text) (h : isAsciiDigit c = true) : minus (c :: r) = ([], c :: r) := by
  unfold minus
  split
  · rename_i heq
    rw [(List.cons.inj heq).1] at h
    exact absurd h (by decide)
  · rfl

theorem minus_sign (negative : Bool) {c : Char} (r : Text) (h : isAsciiDigit c = true) :
    minus ((if negative then ['-'] else []) ++ c :: r) = (if negative then ['-'] else [], c :: r) := by
  cases negative with
  | true => rfl
  | false => exact minus_digit r h

theorem floatMark_ends {d : Char} (h : Ends d) (r : Text) : floatMark (d :: r) = ([], d :: r) := by
  rcases h with rfl | rfl <;> rfl

theorem number?_positional {t : Text} {n : Nat} {e : Int} (h : Decimal.Positional t n e) {d : Char}
    (hd : Ends d) (r : Text) : number? (t ++ d :: r) = some (t, d :: r) := by
  refine ReadsNumber.number?_eq ?_
  cases h with
  | @whole w hw hdigits =>
    have hsplit := digits_append_cons (fun c hc => isDigit_of_isAsciiDigit (hdigits c hc)) hd.not_digit r
    exact .whole hsplit hw (by rcases hd with rfl | rfl <;> exact nofun)
  | @point w f hw hf hwhole hfraction =>
    have hpoint := digits_append_cons (fun c hc => isDigit_of_isAsciiDigit (hwhole c hc))
      (by decide : Text.isDigit '.' = false) (f ++ d :: r)
    have hend := digits_append_cons (fun c hc => isDigit_of_isAsciiDigit (hfraction c hc)) hd.not_digit r
    rw [List.append_assoc, List.cons_append]
    exact .point hpoint hw hend

theorem float?_text {x : Binary64} (hx : x.isFinite = true) {d : Char} (hd : Ends d) (r : Text) :
    float? (x.text ++ d :: r) = some (x.text, d :: r) := by
  cases x with
  | nan => simp [Binary64.isFinite] at hx
  | infinite negative => simp [Binary64.isFinite] at hx
  | finite negative m =>
    obtain ⟨t, n, e, htext, hp, -⟩ := Binary64.exists_text_finite negative m
    obtain ⟨c, w, ht, hc⟩ := hp.exists_cons
    have hnumber := number?_positional hp hd r
    rw [htext, float?_eq, List.append_assoc, ht, List.cons_append, minus_sign _ _ hc,
      ← List.cons_append, ← ht, hnumber, Option.map_some, floatMark_ends hd, List.append_nil]

theorem withoutMarks_eq {t : Text} (h : ∀ c ∈ t, c ≠ 'f' ∧ c ≠ 'F') : withoutMarks t = t := by
  refine List.rdropWhile_eq_self_iff.2 fun hne hmark => ?_
  have := h _ (List.getLast_mem hne)
  simp_all

theorem ne_mark_of_mem_positional {t : Text} {n : Nat} {e : Int} (h : Decimal.Positional t n e)
    {c : Char} (hc : c ∈ t) : c ≠ 'f' ∧ c ≠ 'F' := by
  have hdigit : ∀ {c : Char}, isAsciiDigit c = true → c ≠ 'f' ∧ c ≠ 'F' := by
    rintro c hc
    constructor <;> rintro rfl <;> exact absurd hc (by decide)
  cases h with
  | whole _ hdigits => exact hdigit (hdigits c hc)
  | point _ _ hwhole hfraction =>
    rcases List.mem_append.1 hc with hc | hc
    · exact hdigit (hwhole c hc)
    · rcases List.mem_cons.1 hc with rfl | hc
      · decide
      · exact hdigit (hfraction c hc)

theorem withoutMarks_text {x : Binary64} (hx : x.isFinite = true) : withoutMarks x.text = x.text := by
  cases x with
  | nan => simp [Binary64.isFinite] at hx
  | infinite negative => simp [Binary64.isFinite] at hx
  | finite negative m =>
    obtain ⟨t, n, e, htext, hp, -⟩ := Binary64.exists_text_finite negative m
    refine withoutMarks_eq fun c hc => ?_
    rw [htext] at hc
    rcases List.mem_append.1 hc with hc | hc
    · cases negative <;> simp_all
    · exact ne_mark_of_mem_positional hp hc

theorem exists_natText (n : Nat) :
    ∃ c w, Decimal.natText n = c :: w ∧ isAsciiDigit c = true ∧
      ∀ c ∈ Decimal.natText n, isAsciiDigit c = true := by
  have hall : ∀ c ∈ Decimal.natText n, isAsciiDigit c = true := fun c hc =>
    Decimal.isAsciiDigit_of_mem_natText hc
  obtain ⟨c, w, hw⟩ := List.exists_cons_of_ne_nil (l := Decimal.natText n) Nat.toDigits_ne_nil
  exact ⟨c, w, hw, hall c (hw ▸ List.mem_cons_self), hall⟩

theorem intText_eq (n : Int) :
    Value.intText n = (if decide (n < 0) then ['-'] else []) ++ Decimal.natText n.natAbs := by
  simp [Value.intText]

theorem int?_intText (n : Int) {d : Char} (hd : Ends d) (r : Text) :
    int? (Value.intText n ++ d :: r) = some (Value.intText n, d :: r) := by
  obtain ⟨c, w, hw, hc, hall⟩ := exists_natText n.natAbs
  have hsplit := digits_append_cons (fun c hc => isDigit_of_isAsciiDigit (hall c hc)) hd.not_digit r
  have hsign := minus_sign (decide (n < 0)) (w ++ d :: r) hc
  rw [← List.cons_append, ← hw] at hsign
  rw [intText_eq, List.append_assoc]
  simp only [int?, hsign, hsplit]
  rw [if_neg (by simp [hw])]

theorem signAndRest_sign (negative : Bool) {c : Char} (r : Text) (h : isAsciiDigit c = true) :
    signAndRest ((if negative then ['-'] else []) ++ c :: r) = (negative, c :: r) := by
  cases negative with
  | true => rfl
  | false => exact Binary64.signAndRest_digit r h

theorem intOfText?_intText (n : Int) : intOfText? (Value.intText n) = some n := by
  obtain ⟨c, w, hw, hc, hall⟩ := exists_natText n.natAbs
  have hsign := signAndRest_sign (decide (n < 0)) w hc
  rw [← hw] at hsign
  have hnat : natOfText? (Decimal.natText n.natAbs) = some n.natAbs := by
    rw [natOfText?, if_pos ⟨by simp [hw], List.all_eq_true.2 hall⟩, Decimal.digitsValue_natText]
  rw [intText_eq, intOfText?, hsign]
  dsimp only
  rw [hnat]
  show some (if decide (n < 0) then -(n.natAbs : Int) else n.natAbs) = some n
  rw [Option.some.injEq]
  by_cases hn : n < 0
  · rw [if_pos (decide_eq_true hn)]
    omega
  · rw [if_neg (by simpa using hn)]
    omega

theorem int64OfText?_intText (n : Int64) : int64OfText? (Value.intText n.toInt) = some n := by
  rw [int64OfText?, intOfText?_intText, Option.bind_some, if_pos ⟨n.minValue_le_toInt, n.toInt_le⟩,
    Int64.ofInt_toInt]

end Literal

namespace Value
open Literal (Ends)
variable {v : Value}

theorem literal?_source (h : v.isWritable = true) {d : Char} (hd : Ends d) (r : Text) :
    v.type.literal? (v.source ++ d :: r) = some (v.source, d :: r) := by
  cases v with
  | float x => exact Literal.float?_text h hd r
  | int n => exact Literal.int?_intText n.toInt hd r
  | bool b => cases b <;> rfl
  | text cs =>
    show Literal.text? ('"' :: (cs ++ ['"']) ++ d :: r) = some ('"' :: (cs ++ ['"']), d :: r)
    rw [List.cons_append, List.append_assoc, Literal.text?, List.singleton_append,
      Literal.closing?_quotable h]
    rfl

theorem read?_source (h : v.isWritable = true) : v.type.read? v.source = some v := by
  cases v with
  | float x =>
    show (Binary64.ofText? (Literal.withoutMarks x.text)).map Value.float = _
    rw [Literal.withoutMarks_text h, Binary64.ofText?_text h]
    rfl
  | int n =>
    show (int64OfText? (intText n.toInt)).map Value.int = _
    rw [Literal.int64OfText?_intText]
    rfl
  | bool b => cases b <;> decide
  | text cs => simp [type, source, ValueType.read?]

end Value

end RoutineSync
