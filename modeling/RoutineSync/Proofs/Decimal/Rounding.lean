import Mathlib.Tactic.ByContra
import Mathlib.Tactic.Ring
import RoutineSync.Decimal.Binary64
/-!
Rounding is exact on the magnitudes themselves, whatever fraction or decimal they are given as.
-/
set_option autoImplicit false

namespace RoutineSync.Magnitude

theorem shift_add_significand (m : Magnitude) :
    m.shift * Nat.pow 2 52 + m.significand = m.code := by
  have hdiv := Nat.div_add_mod m.code (Nat.pow 2 52)
  unfold shift significand
  split
  · rename_i hlt
    rw [Nat.div_eq_of_lt hlt, Nat.zero_sub, Nat.zero_mul, Nat.zero_add]
  · rename_i hle
    have hpos : 0 < m.code / Nat.pow 2 52 := Nat.div_pos (Nat.le_of_not_lt hle) (Nat.two_pow_pos 52)
    obtain ⟨e, he⟩ := Nat.exists_eq_add_of_lt hpos
    rw [he] at hdiv ⊢
    rw [← Nat.add_assoc, Nat.zero_add, Nat.add_sub_cancel, ← Nat.succ_mul, Nat.mul_comm]
    rwa [Nat.zero_add] at hdiv

theorem significand_lt (m : Magnitude) : m.significand < Nat.pow 2 53 := by
  have hmod := Nat.mod_lt m.code (Nat.two_pow_pos 52)
  have htwice : Nat.pow 2 53 = Nat.pow 2 52 + Nat.pow 2 52 := rfl
  unfold significand
  rw [htwice]
  split
  · omega
  · exact Nat.add_lt_add_left hmod _

/-- A magnitude with a unit above the least one has all 53 bits. -/
theorem le_significand {m : Magnitude} (h : m.shift ≠ 0) : Nat.pow 2 52 ≤ m.significand := by
  unfold shift at h
  unfold significand
  split
  · rename_i hlt
    rw [Nat.div_eq_of_lt hlt] at h
    exact absurd rfl h
  · exact Nat.le_add_right _ _

theorem significand_ne_zero {m : Magnitude} (h : m.code ≠ 0) : m.significand ≠ 0 := by
  intro hzero
  have hcode := m.shift_add_significand
  by_cases hshift : m.shift = 0
  · rw [hshift, hzero, Nat.zero_mul] at hcode
    exact h hcode.symm
  · have hle := le_significand hshift
    have hpos : 0 < Nat.pow 2 52 := Nat.two_pow_pos 52
    omega

theorem shift_le (m : Magnitude) : m.shift ≤ 2045 := by
  have : m.code / Nat.pow 2 52 < 2047 :=
    Nat.div_lt_of_lt_mul (by rw [Nat.mul_comm]; exact m.code_lt)
  unfold shift
  omega

theorem log2_sub (m : Magnitude) : (m.significand * Nat.pow 2 m.shift).log2 - 52 = m.shift := by
  by_cases hshift : m.shift = 0
  · rw [hshift, Nat.sub_eq_zero_iff_le, ← Nat.lt_succ_iff]
    have hlt : m.significand * Nat.pow 2 0 < 2 ^ 53 := by
      rw [Nat.pow_eq, Nat.pow_zero, Nat.mul_one]
      exact m.significand_lt
    by_cases hzero : m.significand * Nat.pow 2 0 = 0
    · rw [hzero]
      decide
    · exact (Nat.log2_lt hzero).2 hlt
  · have hle : 2 ^ (52 + m.shift) ≤ m.significand * Nat.pow 2 m.shift := by
      rw [Nat.pow_add]
      exact Nat.mul_le_mul_right _ (le_significand hshift)
    have hlt : m.significand * Nat.pow 2 m.shift < 2 ^ (52 + m.shift + 1) := by
      rw [show 52 + m.shift + 1 = 53 + m.shift by omega, Nat.pow_add]
      exact Nat.mul_lt_mul_of_pos_right m.significand_lt (Nat.two_pow_pos _)
    have hpos := Nat.lt_of_lt_of_le (Nat.two_pow_pos _) hle
    rw [(Nat.log2_eq_iff (Nat.ne_of_gt hpos)).2 ⟨hle, hlt⟩, Nat.add_sub_cancel_left]

theorem roundHalfEven_mul (units : Nat) {den : Nat} (h : 0 < den) :
    roundHalfEven (units * den) den = units := by
  simp [roundHalfEven, Nat.mul_div_cancel _ h, h]

/-- A magnitude is the nearest one to itself. -/
theorem ofRatio?_ratio (m : Magnitude) {k : Nat} (hk : 0 < k) :
    ofRatio? (m.ratio.1 * k) (m.ratio.2 * k) = some m := by
  have hunit : 0 < Nat.pow 2 m.shift := Nat.two_pow_pos _
  unfold ofRatio? binade ratio
  generalize 1074 = places
  have hone : 0 < Nat.pow 2 places := Nat.two_pow_pos _
  generalize Nat.pow 2 places = one at hone ⊢
  have hscaled : m.significand * Nat.pow 2 m.shift * k * one
      = m.significand * Nat.pow 2 m.shift * (one * k) := by ring
  have hunits : m.significand * Nat.pow 2 m.shift * (one * k)
      = m.significand * (one * k * Nat.pow 2 m.shift) := by ring
  have hpos : 0 < one * k := Nat.mul_pos hone hk
  dsimp only
  rw [hscaled, Nat.mul_div_cancel _ hpos, m.log2_sub, hunits,
    roundHalfEven_mul _ (Nat.mul_pos hpos hunit), m.shift_add_significand]
  exact dif_pos m.code_lt

/-- The shortcuts of a decimal do not apply to one that is in the range. -/
theorem ofDecimal?_of_bounds {digits : Nat} {exponent : Int} (hd : digits ≠ 0)
    (hlow : -400 ≤ exponent + (digits.log2 / 3 : Nat) + 1)
    (hhigh : exponent + (digits.log2 / 4 : Nat) ≤ 310) :
    ofDecimal? digits exponent =
      if 0 ≤ exponent then ofRatio? (digits * Nat.pow 10 exponent.toNat) 1
      else ofRatio? digits (Nat.pow 10 (-exponent).toNat) := by
  unfold ofDecimal?
  rw [if_neg hd]
  dsimp only
  rw [if_neg (by omega), if_neg (by omega)]

theorem le_of_ofDecimal? {digits : Nat} {exponent : Int} {m : Magnitude}
    (h : ofDecimal? digits exponent = some m) (hm : m.code ≠ 0) :
    digits ≠ 0 ∧ -400 ≤ exponent + (digits.log2 / 3 : Nat) + 1 ∧
      exponent + (digits.log2 / 4 : Nat) ≤ 310 := by
  unfold ofDecimal? at h
  split at h
  · exact absurd (congrArg code (Option.some.inj h).symm) hm
  · rename_i hd
    dsimp only at h
    split at h
    · exact absurd (congrArg code (Option.some.inj h).symm) hm
    · split at h
      · exact absurd h nofun
      · exact ⟨hd, by omega, by omega⟩

theorem ofDecimal?_zeros {digits : Nat} {e : Nat} {m : Magnitude}
    (h : ofDecimal? digits e = some m) (hm : m.code ≠ 0) :
    ofDecimal? (digits * Nat.pow 10 e) 0 = some m := by
  obtain ⟨hd, hlow, hhigh⟩ := le_of_ofDecimal? h hm
  have hten : 0 < Nat.pow 10 e := Nat.pow_pos (by decide)
  have hne : digits * Nat.pow 10 e ≠ 0 := Nat.mul_ne_zero hd (Nat.ne_of_gt hten)
  have hlog : (digits * Nat.pow 10 e).log2 < digits.log2 + 1 + 4 * e := by
    rw [Nat.log2_lt hne, Nat.pow_add, Nat.pow_mul]
    exact Nat.mul_lt_mul_of_lt_of_le Nat.lt_log2_self (Nat.pow_le_pow_left (by decide) e)
      (Nat.pow_pos (by decide))
  rw [ofDecimal?_of_bounds hd hlow hhigh, if_pos (Int.natCast_nonneg e)] at h
  rw [ofDecimal?_of_bounds hne (by omega) (by omega), if_pos (Int.le_refl 0)]
  simpa using h

theorem log2_mul_five_pow {a : Nat} (ha : a ≠ 0) (n : Nat) :
    2 * n ≤ (a * Nat.pow 5 n).log2 ∧ (a * Nat.pow 5 n).log2 < a.log2 + 1 + 3 * n := by
  have hne : a * Nat.pow 5 n ≠ 0 :=
    Nat.mul_ne_zero ha (Nat.ne_of_gt (Nat.pow_pos (by decide)))
  constructor
  · rw [Nat.le_log2 hne, Nat.pow_mul]
    calc 4 ^ n ≤ 5 ^ n := Nat.pow_le_pow_left (by decide) n
      _ ≤ a * Nat.pow 5 n := Nat.le_mul_of_pos_left _ (Nat.pos_of_ne_zero ha)
  · rw [Nat.log2_lt hne, Nat.pow_add, Nat.pow_mul]
    exact Nat.mul_lt_mul_of_lt_of_le Nat.lt_log2_self (Nat.pow_le_pow_left (by decide) n)
      (Nat.pow_pos (by decide))

theorem ratio_ne_zero {m : Magnitude} (hm : m.code ≠ 0) : m.ratio.1 ≠ 0 :=
  Nat.mul_ne_zero (significand_ne_zero hm) (Nat.ne_of_gt (Nat.two_pow_pos _))

theorem log2_ratio_lt {m : Magnitude} (hm : m.code ≠ 0) : m.ratio.1.log2 < 2098 := by
  have hlt : m.ratio.1.log2 < 53 + m.shift := by
    rw [Nat.log2_lt (ratio_ne_zero hm), Nat.pow_add]
    exact Nat.mul_lt_mul_of_pos_right m.significand_lt (Nat.two_pow_pos _)
  have := m.shift_le
  omega

/-- Every magnitude is on the grid of the least exponent, and is read back from there. -/
theorem ofDecimal?_finest {m : Magnitude} (hm : m.code ≠ 0) {places : Nat} (hp : places = 1074) :
    ofDecimal? (m.ratio.1 * Nat.pow 5 places) (-places) = some m := by
  have hbounds := log2_mul_five_pow (ratio_ne_zero hm) places
  have hlog := log2_ratio_lt hm
  have hne : m.ratio.1 * Nat.pow 5 places ≠ 0 :=
    Nat.mul_ne_zero (ratio_ne_zero hm) (Nat.ne_of_gt (Nat.pow_pos (by decide)))
  have hten : Nat.pow 10 places = m.ratio.2 * Nat.pow 5 places := by
    rw [ratio, ← hp]
    exact Nat.mul_pow 2 5 places
  rw [ofDecimal?_of_bounds hne (by omega) (by omega), if_neg (by omega), Int.neg_neg,
    Int.toNat_natCast, hten]
  exact m.ofRatio?_ratio (Nat.pow_pos (by decide))

end RoutineSync.Magnitude
