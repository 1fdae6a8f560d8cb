import RoutineSync.Decimal.Reading
import RoutineSync.Decimal.Shortest
import RoutineSync.Proofs.Decimal.Rounding
/-!
A finite number is read back from its text.
-/
set_option autoImplicit false

namespace RoutineSync

namespace Magnitude

theorem reads_of_onGrid? {m : Magnitude} {exponent : Int} {d : Decimal}
    (h : m.onGrid? exponent = some d) : ofDecimal? d.digits d.exponent = some m := by
  unfold onGrid? at h
  generalize m.ratio = ratio at h
  obtain ⟨num, den⟩ := ratio
  dsimp only at h
  generalize (if exponent < 0 then num * Nat.pow 10 (-exponent).toNat else num) = num at h
  generalize (if exponent < 0 then den else den * Nat.pow 10 exponent.toNat) = den at h
  cases hlow : ofDecimal? (num / den) exponent == some m with
  | false =>
    cases hhigh : ofDecimal? (num / den + 1) exponent == some m with
    | false => simp [hlow, hhigh] at h
    | true =>
      simp only [hlow, hhigh, Option.some.injEq] at h
      rw [← h]
      exact eq_of_beq hhigh
  | true =>
    cases hhigh : ofDecimal? (num / den + 1) exponent == some m with
    | false =>
      simp only [hlow, hhigh, Option.some.injEq] at h
      rw [← h]
      exact eq_of_beq hlow
    | true =>
      simp only [hlow, hhigh, Option.some.injEq] at h
      rw [← h]
      dsimp only
      split
      · exact eq_of_beq hhigh
      · exact eq_of_beq hlow

theorem onGrid?_finest_ne_none {m : Magnitude} (hm : m.code ≠ 0) {places : Nat}
    (hp : places = 1074) : m.onGrid? (-places) ≠ none := by
  have hread := ofDecimal?_finest hm hp
  have hden : m.ratio.2 = Nat.pow 2 places := by rw [ratio, ← hp]
  have hlow : m.ratio.1 * Nat.pow 10 places / m.ratio.2 = m.ratio.1 * Nat.pow 5 places := by
    have hone : 0 < Nat.pow 2 places := Nat.two_pow_pos _
    have hten : Nat.pow 10 places = Nat.pow 5 places * Nat.pow 2 places := Nat.mul_pow 5 2 places
    rw [hden, hten, ← Nat.mul_assoc, Nat.mul_div_cancel _ hone]
  unfold onGrid?
  generalize m.ratio = ratio at hread hlow ⊢
  obtain ⟨num, den⟩ := ratio
  dsimp only at hread hlow ⊢
  rw [if_pos (by omega), if_pos (by omega), Int.neg_neg, Int.toNat_natCast, hlow, hread, beq_self_eq_true]
  cases ofDecimal? (num * Nat.pow 5 places + 1) (-places) == some m <;> simp

/-- Going to finer grids, the first decimal that there is is taken. -/
theorem exists_firstGrid {m : Magnitude} {fuel steps : Nat} {exponent : Int} (hs : steps < fuel)
    (h : m.onGrid? (exponent - steps) ≠ none) :
    ∃ e, m.onGrid? e = some (firstGrid fuel m exponent) := by
  induction fuel generalizing exponent steps with
  | zero => omega
  | succ fuel ih =>
    rw [firstGrid]
    cases hd : m.onGrid? exponent with
    | some d => exact ⟨exponent, hd⟩
    | none =>
      cases steps with
      | zero => simp [hd] at h
      | succ steps =>
        refine @ih steps _ (by omega) ?_
        rwa [show exponent - 1 - steps = exponent - (steps + 1 : Nat) by omega]

theorem reads_shortest {m : Magnitude} (hm : m.code ≠ 0) :
    ofDecimal? m.shortest.digits m.shortest.exponent = some m := by
  unfold shortest
  generalize m.ratio = ratio
  obtain ⟨num, den⟩ := ratio
  dsimp only
  generalize (Decimal.natText (num / den)).length = top
  obtain ⟨e, he⟩ := @exists_firstGrid m (top + 1075) (top + 1074) top (by omega) (by
    rw [show (top : Int) - (top + 1074 : Nat) = -(1074 : Nat) by omega]
    exact onGrid?_finest_ne_none hm rfl)
  exact reads_of_onGrid? he

end Magnitude

namespace Decimal
open Text (isAsciiDigit)

theorem isAsciiDigit_of_isDigit {c : Char} (h : c.isDigit = true) : isAsciiDigit c = true := by
  unfold Char.isDigit at h
  simp only [Bool.and_eq_true, decide_eq_true_eq, ge_iff_le, UInt32.le_iff_toNat_le] at h
  unfold isAsciiDigit
  simp only [Bool.and_eq_true, decide_eq_true_eq]
  exact h

theorem digitsValue_nil (acc : Nat) : digitsValue acc [] = acc := rfl

theorem digitsValue_cons (acc : Nat) (c : Char) (t : List Char) :
    digitsValue acc (c :: t) = digitsValue (10 * acc + (c.toNat - 48)) t := (rfl)

theorem isAsciiDigit_of_mem_natText {n : Nat} {c : Char} (h : c ∈ natText n) :
    isAsciiDigit c = true :=
  isAsciiDigit_of_isDigit (Nat.isDigit_of_mem_toDigits (by decide) (by decide) h)

theorem digitsValue_eq (acc : Nat) (t : List Char) : digitsValue acc t = Nat.ofDigitChars 10 t acc := by
  induction t generalizing acc with
  | nil => rfl
  | cons c t ih => rw [digitsValue_cons, Nat.ofDigitChars_cons, ih]; rfl

theorem digitsValue_append (acc : Nat) (t u : List Char) :
    digitsValue acc (t ++ u) = digitsValue (digitsValue acc t) u := by
  induction t generalizing acc with
  | nil => rfl
  | cons c t ih => exact ih _

theorem digitsValue_natText (n : Nat) : digitsValue 0 (natText n) = n := by
  rw [digitsValue_eq]
  exact Nat.ofDigitChars_toDigits (by decide) (by decide)

theorem digitsValue_zeros (acc n : Nat) :
    digitsValue acc (List.replicate n '0') = acc * Nat.pow 10 n := by
  induction n generalizing acc with
  | zero => simp [digitsValue_nil]
  | succ n ih =>
    rw [List.replicate_succ, digitsValue_cons, ih, show '0'.toNat - 48 = 0 by decide, Nat.pow_eq,
      Nat.pow_eq, Nat.pow_succ]
    ring

/-- Digits with a point among them, and what they are read as. -/
inductive Positional : List Char → Nat → Int → Prop where
  | whole {w : List Char} : w ≠ [] → (∀ c ∈ w, isAsciiDigit c = true) →
      Positional w (digitsValue 0 w) 0
  | point {w f : List Char} : w ≠ [] → f ≠ [] → (∀ c ∈ w, isAsciiDigit c = true) →
      (∀ c ∈ f, isAsciiDigit c = true) →
      Positional (w ++ '.' :: f) (digitsValue 0 (w ++ f)) (-(f.length : Int))

theorem Positional.exists_cons {t : List Char} {n : Nat} {e : Int} (h : Positional t n e) :
    ∃ c r, t = c :: r ∧ isAsciiDigit c = true := by
  cases h with
  | whole hw hd =>
    obtain ⟨c, r, rfl⟩ := List.exists_cons_of_ne_nil hw
    exact ⟨c, r, rfl, hd c List.mem_cons_self⟩
  | point hw _ hd _ =>
    obtain ⟨c, r, rfl⟩ := List.exists_cons_of_ne_nil hw
    exact ⟨c, _, rfl, hd c List.mem_cons_self⟩

theorem isAsciiDigit_of_mem_zeros {n : Nat} {c : Char} (h : c ∈ List.replicate n '0') :
    isAsciiDigit c = true := by
  rw [(List.mem_replicate.1 h).2]
  decide

theorem positional_fraction (digits : Nat) {places : Nat} (hp : 0 < places) {padded : List Char}
    (hpad : padded = List.replicate (places + 1 - (natText digits).length) '0' ++ natText digits) :
    Positional (padded.take (padded.length - places) ++ '.' :: padded.drop (padded.length - places))
      digits (-(places : Int)) := by
  have hlength : places + 1 ≤ padded.length := by
    rw [hpad, List.length_append, List.length_replicate]
    omega
  have hdigits : ∀ c ∈ padded, isAsciiDigit c = true := by
    intro c hc
    rw [hpad] at hc
    exact (List.mem_append.1 hc).elim isAsciiDigit_of_mem_zeros isAsciiDigit_of_mem_natText
  have hvalue : digitsValue 0 padded = digits := by
    rw [hpad, digitsValue_append, digitsValue_zeros, Nat.zero_mul, digitsValue_natText]
  have hwhole : padded.take (padded.length - places) ≠ [] := by
    rw [← List.length_pos_iff, List.length_take]
    omega
  have hfraction : (padded.drop (padded.length - places)).length = places := by
    rw [List.length_drop]
    omega
  have hpositional := Positional.point hwhole (List.length_pos_iff.1 (hfraction ▸ hp))
    (fun c hc => hdigits c (List.mem_of_mem_take hc)) fun c hc => hdigits c (List.mem_of_mem_drop hc)
  rwa [List.take_append_drop, hvalue, hfraction] at hpositional

/-- A decimal is written in digits that say the same. -/
theorem exists_positional {d : Decimal} {m : Magnitude} (hm : m.code ≠ 0)
    (h : Magnitude.ofDecimal? d.digits d.exponent = some m) :
    ∃ n e, Positional d.text n e ∧ Magnitude.ofDecimal? n e = some m := by
  unfold text
  dsimp only
  split
  · rename_i he
    have hne : natText d.digits ≠ [] := Nat.toDigits_ne_nil
    obtain ⟨e, he⟩ := Int.eq_ofNat_of_zero_le he
    rw [if_neg (Magnitude.le_of_ofDecimal? h hm).1, he, Int.toNat_natCast]
    refine ⟨_, 0, .whole (by simp [hne]) fun c hc => ?_, ?_⟩
    · exact (List.mem_append.1 hc).elim isAsciiDigit_of_mem_natText isAsciiDigit_of_mem_zeros
    · rw [digitsValue_append, digitsValue_natText, digitsValue_zeros]
      exact Magnitude.ofDecimal?_zeros (he ▸ h) hm
  · rename_i he
    obtain ⟨places, hplaces, hp⟩ : ∃ places : Nat, d.exponent = -places ∧ 0 < places :=
      ⟨(-d.exponent).toNat, by omega, by omega⟩
    refine ⟨d.digits, _, ?_, h⟩
    rw [hplaces, Int.neg_neg, Int.toNat_natCast]
    exact positional_fraction d.digits hp rfl

end Decimal

namespace Binary64
open Text (isAsciiDigit)

/-- A finite number is written as digits, behind a minus sign if it is negative. -/
theorem exists_text_finite (negative : Bool) (m : Magnitude) :
    ∃ t n e, text (.finite negative m) = (if negative then ['-'] else []) ++ t ∧
      Decimal.Positional t n e ∧ Magnitude.ofDecimal? n e = some m := by
  by_cases hm : m.code = 0
  · refine ⟨['0'], _, 0, ?_, .whole (by simp) (List.forall_mem_singleton.2 (by decide)), ?_⟩
    · rw [text, if_pos hm]
    · obtain ⟨code, hlt⟩ := m
      obtain rfl : code = 0 := hm
      rfl
  · obtain ⟨n, e, hp, hread⟩ := Decimal.exists_positional hm (Magnitude.reads_shortest hm)
    exact ⟨_, n, e, by rw [text, if_neg hm], hp, hread⟩

theorem takeWhile_digits {w : List Char} (hw : ∀ c ∈ w, isAsciiDigit c = true) (r : List Char)
    (hr : ∀ c ∈ r.head?, isAsciiDigit c = false) :
    (w ++ r).takeWhile isAsciiDigit = w ∧ (w ++ r).dropWhile isAsciiDigit = r := by
  rw [List.takeWhile_append_of_pos hw, List.dropWhile_append_of_pos hw]
  cases r with
  | nil => simp
  | cons c r => simp [hr c rfl]

theorem decimalOfText?_positional {t : List Char} {n : Nat} {e : Int}
    (h : Decimal.Positional t n e) : decimalOfText? t = some (n, e) := by
  cases h with
  | whole hne hw =>
    obtain ⟨htake, hdrop⟩ := takeWhile_digits hw [] (by simp)
    rw [List.append_nil] at htake hdrop
    simp [decimalOfText?, htake, hdrop, hne]
  | @point w f hne hf hw hd =>
    obtain ⟨htake, hdrop⟩ := takeWhile_digits hw ('.' :: f) (by
      intro c hc
      obtain rfl := Option.some.inj hc
      decide)
    obtain ⟨htake', hdrop'⟩ := takeWhile_digits hd [] (by simp)
    rw [List.append_nil] at htake' hdrop'
    simp [decimalOfText?, htake, hdrop, htake', hdrop', hne]

theorem toLower_of_isAsciiDigit {c : Char} (h : isAsciiDigit c = true) : c.toLower = c := by
  unfold isAsciiDigit at h
  simp only [Bool.and_eq_true, decide_eq_true_eq] at h
  unfold Char.toLower
  split
  · rename_i hc
    simp only [ge_iff_le, UInt32.le_iff_toNat_le] at hc
    have : c.val.toNat = c.toNat := rfl
    have : 'A'.val.toNat = 65 := rfl
    have : '9'.toNat = 57 := rfl
    omega
  · rfl

theorem signAndRest_digit {c : Char} (r : List Char) (h : isAsciiDigit c = true) :
    signAndRest (c :: r) = (false, c :: r) := by
  unfold signAndRest
  split
  · rename_i heq
    rw [(List.cons.inj heq).1] at h
    exact absurd h (by decide)
  · rename_i heq
    rw [(List.cons.inj heq).1] at h
    exact absurd h (by decide)
  · rfl

theorem isNamed_eq_false {word : String} {c d : Char} {r w : List Char} (hw : word.toList = d :: w)
    (hc : isAsciiDigit c = true) (hd : isAsciiDigit d = false) : isNamed word (c :: r) = false := by
  rw [isNamed, hw, beq_eq_false_iff_ne, List.map_cons, toLower_of_isAsciiDigit hc]
  intro h
  rw [(List.cons.inj h).1, hd] at hc
  exact absurd hc nofun

theorem ofText?_text {x : Binary64} (h : x.isFinite = true) : ofText? x.text = some x := by
  cases x with
  | nan => exact absurd h nofun
  | infinite negative => exact absurd h nofun
  | finite negative m =>
    obtain ⟨t, n, e, htext, hp, hread⟩ := exists_text_finite negative m
    obtain ⟨c, r, rfl, hc⟩ := hp.exists_cons
    have hsign : signAndRest (text (.finite negative m)) = (negative, c :: r) := by
      rw [htext]
      cases negative with
      | true => rfl
      | false => exact signAndRest_digit r hc
    unfold ofText?
    rw [hsign]
    dsimp only
    rw [isNamed_eq_false rfl hc (by decide), isNamed_eq_false rfl hc (by decide), isNamed_eq_false rfl hc (by decide),
      decimalOfText?_positional hp]
    simp [ofDecimal, hread, ofMagnitude]

end Binary64

end RoutineSync
