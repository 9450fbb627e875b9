import Exemplar.Number.Integral
import Exemplar.Proofs.Rounding
import Mathlib.Algebra.Order.Floor.Semifield
import Mathlib.Data.Rat.Floor
import Mathlib.Order.Compare

/-!
# Doubles compared and truncated

Sign, exponent and fraction order the finite doubles as the numbers that they stand for: one double
comes before another exactly if its number is smaller, and two doubles are equal exactly if their
numbers are. Clearing the bits that weigh less than one gives the double whose number is the integer
next towards zero, with the sign kept.
-/

namespace Exemplar.Binary64

/-! Order -/

theorem fraction_lt (x : Binary64) : x.fraction.val < 2 ^ 52 := x.fraction.isLt

theorem magnitude_eq (x : Binary64) :
    x.magnitude = x.exponent.val * 2 ^ 52 + x.fraction.val := rfl

theorem magnitude_eq_scale (x : Binary64) :
    (x.magnitude : ℤ) = (x.scale + 1074) * 2 ^ 52 + x.significand := by
  have hlead := leadingBit_eq
  rw [magnitude_eq, scale, significand]
  split <;> omega

/-- A larger magnitude means a higher binade, or the same binade and a larger significand. -/
theorem size_lt_size {x y : Binary64} (h : x.magnitude < y.magnitude) : x.size < y.size := by
  have hx := x.magnitude_eq_scale
  have hy := y.magnitude_eq_scale
  rcases lt_trichotomy x.scale y.scale with hlt | heq | hgt
  · have hlead : (2 : ℚ) ^ 52 ≤ y.significand := by
      have hle := y.le_significand (by have := x.le_scale; omega)
      exact_mod_cast hle
    calc x.size < 2 ^ 52 * 2 ^ y.scale := size_lt hlt
      _ ≤ y.significand * 2 ^ y.scale := mul_le_mul_of_nonneg_right hlead (two_zpow_pos _).le
      _ = y.size := y.size_eq.symm
  · have hsignificand : (x.significand : ℚ) < y.significand := by
      rw [heq] at hx
      exact_mod_cast (by omega : x.significand < y.significand)
    rw [size_eq, size_eq, heq]
    exact mul_lt_mul_of_pos_right hsignificand (two_zpow_pos _)
  · have hlead := x.le_significand (by have := y.le_scale; omega)
    have hbound := y.significand_lt
    omega

theorem size_eq_size {x y : Binary64} (h : x.magnitude = y.magnitude) : x.size = y.size := by
  have hx := x.fraction_lt
  have hy := y.fraction_lt
  rw [magnitude_eq, magnitude_eq] at h
  have hexponent : x.exponent.val = y.exponent.val := by omega
  have hfraction : x.fraction.val = y.fraction.val := by omega
  rw [size, size, hexponent, hfraction]

theorem size_zero (negative : Bool) : (zero negative).size = 0 := by
  rw [size_eq]
  change ((0 : ℕ) : ℚ) * _ = 0
  rw [Nat.cast_zero, zero_mul]

theorem size_pos {x : Binary64} (h : 0 < x.magnitude) : 0 < x.size := by
  rw [← size_zero false]
  exact size_lt_size h

theorem size_eq_zero {x : Binary64} (h : x.magnitude = 0) : x.size = 0 := by
  rw [← size_zero false]
  exact size_eq_size h

theorem value_lt_value {x y : Binary64} (h : x.rank < y.rank) : x.value < y.value := by
  have hxsize := x.size_nonneg
  have hysize := y.size_nonneg
  rw [rank, rank] at h
  rw [value, value]
  by_cases hx : x.negative
  · rw [if_pos hx] at h ⊢
    by_cases hy : y.negative
    · rw [if_pos hy] at h ⊢
      exact neg_lt_neg (size_lt_size (by omega))
    · rw [if_neg hy] at h ⊢
      rcases (by omega : 0 < x.magnitude ∨ 0 < y.magnitude) with hpos | hpos
      · linarith [size_pos hpos]
      · linarith [size_pos hpos]
  · rw [if_neg hx] at h ⊢
    by_cases hy : y.negative
    · rw [if_pos hy] at h
      omega
    · rw [if_neg hy] at h ⊢
      exact size_lt_size (by omega)

theorem value_eq_value {x y : Binary64} (h : x.rank = y.rank) : x.value = y.value := by
  rw [rank, rank] at h
  rw [value, value]
  by_cases hsign : x.negative = y.negative
  · have hmagnitude : x.magnitude = y.magnitude := by
      rw [hsign] at h
      split at h <;> omega
    rw [hsign, size_eq_size hmagnitude]
  · -- only the two zeros have one rank and different signs
    have hzero : x.magnitude = 0 ∧ y.magnitude = 0 := by
      rw [Bool.eq_not_of_ne hsign] at h
      cases hy : y.negative with
      | false =>
        rw [hy, Bool.not_false, if_pos rfl, if_neg Bool.false_ne_true] at h
        omega
      | true =>
        rw [hy, Bool.not_true, if_neg Bool.false_ne_true, if_pos rfl] at h
        omega
    rw [size_eq_zero hzero.1, size_eq_zero hzero.2, neg_zero, ite_self, ite_self]

/-- The rank orders doubles as the numbers that they stand for. -/
theorem cmp_rank (x y : Binary64) : cmp x.rank y.rank = cmp x.value y.value := by
  rcases lt_trichotomy x.rank y.rank with hlt | heq | hgt
  · rw [hlt.cmp_eq_lt, (value_lt_value hlt).cmp_eq_lt]
  · rw [heq.cmp_eq_eq, (value_eq_value heq).cmp_eq_eq]
  · rw [hgt.cmp_eq_gt, (value_lt_value hgt).cmp_eq_gt]

theorem isNaN_of_isFinite {x : Binary64} (h : x.isFinite) : x.isNaN = false := by
  rw [isNaN, h]
  rfl

section Finite

variable {x y : Binary64} (hx : x.isFinite) (hy : y.isFinite)
include hx hy

theorem compare?_of_isFinite : x.compare? y = some (cmp x.value y.value) := by
  rw [compare?, isNaN_of_isFinite hx, isNaN_of_isFinite hy, ← cmp_rank, cmp_eq_compare]
  rfl

theorem isBelow_iff : x.isBelow y ↔ x.value < y.value := by
  rw [isBelow, compare?_of_isFinite hx hy, Option.any_some, Ordering.isLT_iff_eq_lt,
    cmp_eq_lt_iff]

theorem isAtMost_iff : x.isAtMost y ↔ x.value ≤ y.value := by
  rw [isAtMost, compare?_of_isFinite hx hy, Option.any_some, Ordering.isLE_iff_ne_gt,
    (cmp_eq_gt_iff _ _).not, not_lt]

theorem equals_iff : x.equals y ↔ x.value = y.value := by
  rw [equals, compare?_of_isFinite hx hy, Option.any_some, Ordering.isEq_iff_eq_eq,
    cmp_eq_eq_iff]

end Finite

theorem value_neg (x : Binary64) : x.neg.value = -x.value := by
  rw [value, value, neg]
  cases x.negative
  · rfl
  · exact (neg_neg x.size).symm

/-! Truncation -/

/-- The number as a quotient, in which one of the two powers is one. -/
theorem size_eq_div (x : Binary64) :
    x.size =
      ((x.significand * 2 ^ x.scale.toNat : ℕ) : ℚ) / ((2 ^ (-x.scale).toNat : ℕ) : ℚ) := by
  rw [size_eq]
  rcases le_total 0 x.scale with hscale | hscale
  · obtain ⟨n, hn⟩ := Int.eq_ofNat_of_zero_le hscale
    rw [hn, Int.toNat_natCast, Int.toNat_of_nonpos (by omega), zpow_natCast]
    push_cast
    rw [div_one]
  · obtain ⟨n, hn⟩ := Int.eq_ofNat_of_zero_le (Int.neg_nonneg_of_nonpos hscale)
    rw [hn, Int.toNat_natCast, Int.toNat_of_nonpos hscale, ← neg_neg x.scale, hn, zpow_neg,
      zpow_natCast, pow_zero, mul_one, div_eq_mul_inv]
    push_cast
    rfl

theorem floor_size (x : Binary64) : ⌊x.size⌋₊ = x.wholePart := by
  rw [size_eq_div, Nat.floor_div_eq_div]
  rfl

theorem significand_eq {x : Binary64} (h : x.exponent.val ≠ 0) :
    x.significand = 2 ^ 52 + x.fraction.val := if_neg h

/-- The bits that weigh one and more, where there are any. -/
theorem significand_trunc {x : Binary64} (h : ¬x.exponent.val < 1023) :
    x.trunc.significand =
      x.significand / 2 ^ (-x.scale).toNat * 2 ^ (-x.scale).toNat := by
  have hbits : (-x.scale).toNat = 1075 - x.exponent.val := by
    rw [scale]
    omega
  have hlead : 2 ^ 52 = 2 ^ (1075 - x.exponent.val) * 2 ^ (52 - (1075 - x.exponent.val)) := by
    rw [← pow_add]
    congr 1
    omega
  have hexponent : x.trunc.exponent = x.exponent := by
    rw [trunc, if_neg h]
  have hfraction : x.trunc.fraction.val =
      x.fraction.val / 2 ^ (1075 - x.exponent.val) * 2 ^ (1075 - x.exponent.val) := by
    rw [trunc, if_neg h]
    rfl
  rw [significand_eq (by rw [hexponent]; omega), significand_eq (by omega), hfraction, hbits, hlead,
    Nat.mul_add_div (Nat.two_pow_pos _), Nat.add_mul, Nat.mul_comm (2 ^ (52 - _))]

/-- One of the two powers is one, so that they can be taken in either order. -/
theorem wholePart_eq (x : Binary64) :
    x.wholePart = x.significand / 2 ^ (-x.scale).toNat * 2 ^ x.scale.toNat := by
  rw [wholePart]
  rcases le_total 0 x.scale with hscale | hscale
  · rw [Int.toNat_of_nonpos (by omega : -x.scale ≤ 0), Nat.pow_eq, Nat.pow_eq, pow_zero,
      Nat.div_one, Nat.div_one]
  · rw [Int.toNat_of_nonpos hscale, Nat.pow_eq, Nat.pow_eq, pow_zero, Nat.mul_one, Nat.mul_one]

theorem size_lt_one {x : Binary64} (h : x.exponent.val < 1023) : x.size < 1 := by
  have hone : (⟨false, 1023, 0⟩ : Binary64).size = 1 := by
    norm_num [size]
  have hfraction := x.fraction_lt
  rw [← hone]
  refine size_lt_size ?_
  change x.exponent.val * 2 ^ 52 + x.fraction.val < 1023 * 2 ^ 52 + 0
  omega

theorem size_trunc (x : Binary64) : x.trunc.size = x.wholePart := by
  by_cases h : x.exponent.val < 1023
  · rw [← floor_size, Nat.floor_eq_zero.mpr (size_lt_one h), trunc, if_pos h, size_zero,
      Nat.cast_zero]
  · have hscale : x.trunc.scale = x.scale := by
      rw [trunc, if_neg h]
      rfl
    have hpos : ((2 ^ (-x.scale).toNat : ℕ) : ℚ) ≠ 0 :=
      Nat.cast_ne_zero.mpr (Nat.two_pow_pos _).ne'
    rw [size_eq_div, hscale, significand_trunc h, wholePart_eq, div_eq_iff hpos]
    push_cast
    ring

theorem value_trunc (x : Binary64) : x.trunc.value = x.integerPart := by
  have hnegative : x.trunc.negative = x.negative := by
    rw [trunc]
    split <;> rfl
  rw [value, hnegative, size_trunc, integerPart]
  split
  · rw [Int.cast_neg, Int.cast_natCast]
  · rw [Int.cast_natCast]

theorem integerPart_of_value {x : Binary64} {n : ℤ} (h : x.value = n) : x.integerPart = n := by
  have hsize : x.size = n.natAbs := by
    rw [← abs_value, h, ← Int.cast_abs, Int.abs_eq_natAbs, Int.cast_natCast]
  have hwhole : x.wholePart = n.natAbs := by
    rw [← floor_size, hsize, Nat.floor_natCast]
  have hvalue : x.value = x.integerPart := by
    rw [value, integerPart, hsize, hwhole]
    split
    · rw [Int.cast_neg, Int.cast_natCast]
    · rw [Int.cast_natCast]
  exact_mod_cast hvalue.symm.trans h

/-- Truncation changes exactly the numbers that are no integers. -/
theorem value_eq_value_trunc_iff (x : Binary64) :
    x.value = x.trunc.value ↔ ∃ n : ℤ, x.value = n := by
  rw [value_trunc]
  constructor
  · intro h
    exact ⟨x.integerPart, h⟩
  · rintro ⟨n, hn⟩
    rw [integerPart_of_value hn, hn]

theorem isFinite_trunc {x : Binary64} (h : x.isFinite) : x.trunc.isFinite := by
  rw [trunc]
  split
  · rfl
  · exact h

end Exemplar.Binary64
