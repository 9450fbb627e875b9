import Exemplar.Number.Binary64
import Mathlib.Algebra.Order.Ring.Rat
import Mathlib.Algebra.Order.Field.Power
import Mathlib.Tactic.Linarith
import Mathlib.Tactic.Positivity
import Mathlib.Tactic.Ring
import Mathlib.Tactic.FieldSimp

/-!
# Decimals are rounded to the nearest double

The number that a double stands for is given by its fields, after the standard for binary floating
point. A decimal becomes the finite double that is nearest to it and, of two that are equally near,
the one whose fraction is even. It becomes none exactly from halfway between the largest double and
the next power of two on. The numbers that are computed on the way do not matter to the statement:
`Rounded` says on which grid a number was rounded, and what is nearest on a grid that is fine enough
is nearest among all doubles.
-/

namespace Exemplar.Binary64

/-- The number that the exponent and the fraction stand for. -/
def size (x : Binary64) : ℚ :=
  if x.exponent.val = 0 then x.fraction.val / 2 ^ 52 * 2 ^ (-1022 : ℤ)
  else (1 + x.fraction.val / 2 ^ 52) * 2 ^ ((x.exponent.val : ℤ) - 1023)

/-- The number that a finite double stands for. -/
def value (x : Binary64) : ℚ := if x.negative then -x.size else x.size

/-- No finite double is nearer, and one that is as near lets this one go first for its even
fraction. -/
structure IsNearest (x : Binary64) (q : ℚ) : Prop where
  isFinite : x.isFinite
  nearest : ∀ y : Binary64, y.isFinite → |x.value - q| ≤ |y.value - q|
  even : ∀ y : Binary64, y.isFinite → |y.value - q| = |x.value - q| → y.value ≠ x.value →
    x.fraction.val % 2 = 0

/-! Fields -/

theorem two_zpow_pos (s : ℤ) : (0 : ℚ) < 2 ^ s := zpow_pos (by norm_num) s

theorem two_zpow_add (m n : ℤ) : (2 : ℚ) ^ (m + n) = 2 ^ m * 2 ^ n := zpow_add₀ (by norm_num) m n

theorem two_zpow_le {m n : ℤ} (h : m ≤ n) : (2 : ℚ) ^ m ≤ 2 ^ n :=
  zpow_le_zpow_right₀ (by norm_num) h

theorem leadingBit_eq : leadingBit = 2 ^ 52 := rfl

theorem size_eq (x : Binary64) : x.size = x.significand * 2 ^ x.scale := by
  have hlead : ((leadingBit : ℕ) : ℚ) = 2 ^ 52 := by norm_num
  rw [size, significand, scale]
  split
  · rename_i h
    have hscale : max (x.exponent.val : ℤ) 1 - 1075 = -52 + -1022 := by omega
    have hpow : (2 : ℚ) ^ (-52 : ℤ) = (2 ^ 52)⁻¹ := by norm_num
    rw [hscale, two_zpow_add, hpow]
    ring
  · rename_i h
    have hscale : max (x.exponent.val : ℤ) 1 - 1075 = -52 + ((x.exponent.val : ℤ) - 1023) := by
      omega
    have hpow : (2 : ℚ) ^ (-52 : ℤ) = (2 ^ 52)⁻¹ := by norm_num
    rw [hscale, two_zpow_add, hpow, Nat.cast_add, hlead]
    field_simp

theorem significand_lt (x : Binary64) : x.significand < 2 ^ 53 := by
  have hfraction : x.fraction.val < 2 ^ 52 := x.fraction.isLt
  have hlead := leadingBit_eq
  rw [significand]
  split <;> omega

theorem le_scale (x : Binary64) : -1074 ≤ x.scale := by
  rw [scale]
  omega

theorem le_significand (x : Binary64) (h : x.scale ≠ -1074) : 2 ^ 52 ≤ x.significand := by
  rw [scale] at h
  have hlead := leadingBit_eq
  rw [significand, if_neg (by omega)]
  omega

theorem significand_mod_two (x : Binary64) : x.significand % 2 = x.fraction.val % 2 := by
  have hlead := leadingBit_eq
  rw [significand]
  split <;> omega

theorem size_nonneg (x : Binary64) : 0 ≤ x.size := by
  rw [size_eq]
  exact mul_nonneg (Nat.cast_nonneg _) (two_zpow_pos _).le

theorem abs_value (x : Binary64) : |x.value| = x.size := by
  rw [value]
  split
  · rw [abs_neg, abs_of_nonneg x.size_nonneg]
  · rw [abs_of_nonneg x.size_nonneg]

/-- A multiple of a smaller power of two is below all numbers of the next binade. -/
theorem size_lt {x : Binary64} {s : ℤ} (h : x.scale < s) : x.size < 2 ^ 52 * 2 ^ s := by
  have hsignificand : (x.significand : ℚ) < 2 ^ 53 := by exact_mod_cast x.significand_lt
  have hpow : (2 : ℚ) ^ (x.scale + 1) ≤ 2 ^ s := two_zpow_le h
  rw [two_zpow_add, zpow_one] at hpow
  rw [size_eq]
  calc (x.significand : ℚ) * 2 ^ x.scale
      < 2 ^ 53 * 2 ^ x.scale := mul_lt_mul_of_pos_right hsignificand (two_zpow_pos _)
    _ = 2 ^ 52 * (2 ^ x.scale * 2) := by ring
    _ ≤ 2 ^ 52 * 2 ^ s := by linarith

/-- Doubles of one size differ at most in their signs. -/
theorem eq_of_size_eq {x y : Binary64} (h : x.size = y.size) (hnegative : x.negative = y.negative) :
    x = y := by
  have hle : ∀ {x y : Binary64}, x.size = y.size → y.scale ≤ x.scale := by
    intro x y h
    by_contra hlt
    have hlead : (2 : ℚ) ^ 52 ≤ y.significand := by
      have hy := y.le_significand (by have := x.le_scale; omega)
      exact_mod_cast hy
    have hsize := size_lt (not_le.mp hlt)
    rw [h, size_eq] at hsize
    have hscaled := mul_le_mul_of_nonneg_right hlead (two_zpow_pos y.scale).le
    linarith
  have hscale : x.scale = y.scale := le_antisymm (hle h.symm) (hle h)
  have hsignificand : x.significand = y.significand := by
    rw [size_eq, size_eq, hscale] at h
    exact_mod_cast mul_right_cancel₀ (two_zpow_pos y.scale).ne' h
  have hx := x.fraction.isLt
  have hy := y.fraction.isLt
  rw [scale, scale] at hscale
  rw [significand, significand] at hsignificand
  have hexponent : x.exponent.val = y.exponent.val := by
    split at hsignificand <;> split at hsignificand <;> omega
  have hfraction : x.fraction.val = y.fraction.val := by
    split at hsignificand <;> split at hsignificand <;> omega
  cases x
  cases y
  cases hnegative
  cases Fin.ext hexponent
  cases Fin.ext hfraction
  rfl

/-! The nearest multiple -/

theorem one_le_abs_sub {m n : ℕ} (h : m ≠ n) : 1 ≤ |(m : ℚ) - n| := by
  have hint : 1 ≤ |(m : ℤ) - n| := Int.one_le_abs (by omega)
  exact_mod_cast hint

theorem abs_sub_le_of_close {q : ℚ} {r : ℕ} (h : |(r : ℚ) - q| ≤ 1 / 2) (k : ℕ) :
    |(r : ℚ) - q| ≤ |(k : ℚ) - q| := by
  by_cases hk : k = r
  · rw [hk]
  · have hone := one_le_abs_sub hk
    have htriangle := abs_sub_le (k : ℚ) q r
    rw [abs_sub_comm q r] at htriangle
    linarith

/-- Two integers are equally near only halfway between neighbours. -/
theorem tie_of_abs_sub_eq {q : ℚ} {r k : ℕ} (h : |(r : ℚ) - q| ≤ 1 / 2)
    (heq : |(k : ℚ) - q| = |(r : ℚ) - q|) (hne : k ≠ r) :
    |(r : ℚ) - q| = 1 / 2 ∧ k % 2 ≠ r % 2 := by
  have hone := one_le_abs_sub hne
  have htriangle := abs_sub_le (k : ℚ) q r
  rw [abs_sub_comm q r] at htriangle
  have hle : |(k : ℤ) - r| ≤ 1 := by
    have hcast : |(k : ℚ) - r| ≤ 1 := by linarith
    exact_mod_cast hcast
  rw [abs_le] at hle
  exact ⟨by linarith, by omega⟩

theorem abs_mul_sub (k : ℕ) (t : ℚ) (s : ℤ) :
    |(k : ℚ) * 2 ^ s - t| = |(k : ℚ) - t / 2 ^ s| * 2 ^ s := by
  have hpos := two_zpow_pos s
  rw [← abs_of_pos hpos, ← abs_mul, abs_of_pos hpos, sub_mul, div_mul_cancel₀ _ hpos.ne']

/-- A double is smaller than the next binade of a grid, or a multiple of its step; an odd multiple
has an odd fraction. -/
theorem size_on_grid (x : Binary64) (s : ℤ) :
    x.scale < s ∨ ∃ k : ℕ, x.size = k * 2 ^ s ∧ (k % 2 = 1 → x.fraction.val % 2 = 1) := by
  rcases lt_or_ge x.scale s with hlt | hge
  · exact Or.inl hlt
  · right
    obtain ⟨n, hn⟩ := Int.eq_ofNat_of_zero_le (sub_nonneg.mpr hge)
    have hscale : x.scale = n + s := by
      have hn' : x.scale - s = n := hn
      omega
    refine ⟨x.significand * 2 ^ n, ?_, fun hodd => ?_⟩
    · rw [size_eq, hscale, two_zpow_add, zpow_natCast]
      push_cast
      ring
    · rw [← x.significand_mod_two]
      exact (Nat.odd_iff.mp (Nat.odd_mul.mp (Nat.odd_iff.mpr hodd)).1)

/-- The number `t` was rounded to the multiple `steps` of `2 ^ grid`, ties to even. The grid is the
finest there is, or its multiples from `2 ^ 52` on hold all doubles of the size of `t`. -/
structure Rounded (x : Binary64) (t : ℚ) (steps : ℕ) (grid : ℤ) : Prop where
  isFinite : x.isFinite
  size : x.size = steps * 2 ^ grid
  close : |(steps : ℚ) - t / 2 ^ grid| ≤ 1 / 2
  tie : |(steps : ℚ) - t / 2 ^ grid| = 1 / 2 → steps % 2 = 0
  even : steps % 2 = 0 → x.fraction.val % 2 = 0
  fine : grid = -1074 ∨ 2 ^ 52 ≤ t / 2 ^ grid

namespace Rounded

variable {x : Binary64} {t : ℚ} {steps : ℕ} {grid : ℤ}

/-- What is nearest on the grid is nearest among all doubles, and what is as near is odd. -/
theorem nearest (h : x.Rounded t steps grid) (y : Binary64) :
    |x.size - t| ≤ |y.size - t| ∧
      (|y.size - t| = |x.size - t| → y.size ≠ x.size →
        x.fraction.val % 2 = 0 ∧ y.fraction.val % 2 = 1) := by
  have hpos := two_zpow_pos grid
  rcases y.size_on_grid grid with hbelow | ⟨k, hk, hodd⟩
  · -- `y` lies below the binade of `t`, and the least number of that binade is nearer
    have hfine : 2 ^ 52 ≤ t / 2 ^ grid := by
      rcases h.fine with hgrid | hfine
      · have := y.le_scale
        omega
      · exact hfine
    rw [le_div_iff₀ hpos] at hfine
    have hsize := size_lt hbelow
    have hlead : |x.size - t| ≤ |((2 ^ 52 : ℕ) : ℚ) * 2 ^ grid - t| := by
      rw [h.size, abs_mul_sub, abs_mul_sub]
      exact mul_le_mul_of_nonneg_right (abs_sub_le_of_close h.close _) hpos.le
    rw [Nat.cast_pow, Nat.cast_ofNat] at hlead
    rw [abs_of_nonpos (by linarith : (2 : ℚ) ^ 52 * 2 ^ grid - t ≤ 0)] at hlead
    have hlt : |x.size - t| < |y.size - t| := by
      rw [abs_of_neg (by linarith : y.size - t < 0)]
      linarith
    exact ⟨hlt.le, fun heq => absurd heq hlt.ne'⟩
  · rw [hk, h.size, abs_mul_sub, abs_mul_sub]
    refine ⟨mul_le_mul_of_nonneg_right (abs_sub_le_of_close h.close k) hpos.le, ?_⟩
    intro heq hne
    have hsteps : k ≠ steps := by
      rintro rfl
      exact hne rfl
    obtain ⟨htie, hparity⟩ :=
      tie_of_abs_sub_eq h.close (mul_right_cancel₀ hpos.ne' heq) hsteps
    have heven := h.tie htie
    exact ⟨h.even heven, hodd (by omega)⟩

/-- The rounded number with the sign of another one. -/
theorem abs_value_sub (y : Binary64) :
    |y.value - (if y.negative then -t else t)| = |y.size - t| := by
  rw [value]
  split
  · rw [neg_sub_neg, abs_sub_comm]
  · rfl

theorem abs_value_sub_of_ne (ht : 0 ≤ t) {y : Binary64} {negative : Bool}
    (h : y.negative ≠ negative) : |y.value - (if negative then -t else t)| = y.size + t := by
  have hsize := y.size_nonneg
  rw [value]
  cases negative with
  | false =>
    rw [if_pos (Bool.eq_true_of_not_eq_false h), if_neg Bool.false_ne_true, ← neg_add', abs_neg,
      abs_of_nonneg (by linarith)]
  | true =>
    rw [if_neg h, if_pos rfl, sub_neg_eq_add, abs_of_nonneg (by linarith)]

theorem abs_size_sub_le (ht : 0 ≤ t) (y : Binary64) (negative : Bool) :
    |y.size - t| ≤ |y.value - (if negative then -t else t)| := by
  have hsigned : |if negative then -t else t| = t := by
    split
    · rw [abs_neg, abs_of_nonneg ht]
    · exact abs_of_nonneg ht
  have hle := abs_abs_sub_abs_le_abs_sub y.value (if negative then -t else t)
  rwa [abs_value, hsigned] at hle

/-- Numbers of one size and different signs are equally near to nothing but zero. -/
theorem size_eq_zero (h : x.Rounded t steps grid) (ht : 0 ≤ t)
    (heq : x.size + t = |x.size - t|) : x.size = 0 := by
  have hsize := x.size_nonneg
  rcases le_total x.size t with hle | hle
  · rw [abs_of_nonpos (by linarith)] at heq
    linarith
  · rw [abs_of_nonneg (by linarith)] at heq
    have hzero : t = 0 := by linarith
    have hclose := h.close
    rw [hzero, zero_div, sub_zero, Nat.abs_cast] at hclose
    have hsteps : steps = 0 := by
      by_contra hne
      have hone : (1 : ℚ) ≤ steps := by exact_mod_cast Nat.pos_of_ne_zero hne
      linarith
    rw [h.size, hsteps, Nat.cast_zero, zero_mul]

theorem isNearest (h : x.Rounded t steps grid) (ht : 0 ≤ t) :
    x.IsNearest (if x.negative then -t else t) := by
  refine ⟨h.isFinite, fun y _ => ?_, fun y _ heq hne => ?_⟩
  · rw [abs_value_sub]
    exact (h.nearest y).1.trans (abs_size_sub_le ht y _)
  · rw [abs_value_sub] at heq
    by_cases hsize : y.size = x.size
    · have hnegative : y.negative ≠ x.negative := by
        intro hnegative
        rw [value, value, hsize, hnegative] at hne
        exact hne rfl
      rw [abs_value_sub_of_ne ht hnegative, hsize] at heq
      rw [value, value, hsize, h.size_eq_zero ht heq, neg_zero, ite_self, ite_self] at hne
      exact absurd rfl hne
    · have hle := abs_size_sub_le ht y x.negative
      have hnear := (h.nearest y).1
      exact ((h.nearest y).2 (le_antisymm (hle.trans heq.le) hnear) hsize).1

/-- With its sign, the rounded number is the only one that is nearest. -/
theorem eq_iff (h : x.Rounded t steps grid) (ht : 0 ≤ t) (y : Binary64) :
    y = x ↔ y.negative = x.negative ∧ y.IsNearest (if x.negative then -t else t) := by
  constructor
  · rintro rfl
    exact ⟨rfl, h.isNearest ht⟩
  · rintro ⟨hnegative, hy⟩
    have hx := abs_value_sub (t := t) x
    have hy' := abs_value_sub (t := t) y
    rw [hnegative] at hy'
    have hle := hy.nearest x h.isFinite
    rw [hx, hy'] at hle
    have heq : |y.size - t| = |x.size - t| := le_antisymm hle (h.nearest y).1
    by_cases hsize : y.size = x.size
    · exact eq_of_size_eq hsize hnegative
    · have hvalue : x.value ≠ y.value := by
        intro hvalue
        have habs := congrArg abs hvalue
        rw [abs_value, abs_value] at habs
        exact hsize habs.symm
      have hodd := ((h.nearest y).2 heq hsize).2
      have heven := hy.even x h.isFinite (by rw [hx, hy', heq]) hvalue
      omega

end Rounded

end Exemplar.Binary64
