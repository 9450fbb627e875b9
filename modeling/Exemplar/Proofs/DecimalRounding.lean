import Exemplar.Proofs.ExactNumbers
import Exemplar.Proofs.Rounding

/-!
# Reading decimals as doubles

The computation that turns a decimal into a double finds a scale at which the significand has 53
bits, or the least scale there is, and rounds the quotient there: it rounds on a grid. It gives up
exactly from halfway between the largest double and `2 ^ 1024` on. So a literal with a point or an
exponent is read as the nearest double or, from there on, as an exact decimal.
-/

namespace Exemplar.Binary64

theorem roundQuotient_spec (num : ℕ) {den : ℕ} (h : 0 < den) :
    |(roundQuotient num den : ℚ) - num / den| ≤ 1 / 2 ∧
      (|(roundQuotient num den : ℚ) - num / den| = 1 / 2 → roundQuotient num den % 2 = 0) := by
  have hden : (0 : ℚ) < den := by exact_mod_cast h
  have hquotient : (num : ℚ) / den = (num / den : ℕ) + (num % den : ℕ) / den := by
    have hsplit : ((den * (num / den) + num % den : ℕ) : ℚ) = num := by rw [Nat.div_add_mod]
    push_cast at hsplit
    rw [eq_comm, ← hsplit]
    field_simp
  have hrest : (0 : ℚ) ≤ (num % den : ℕ) / den := by positivity
  have hlt : ((num % den : ℕ) : ℚ) / den < 1 := by
    rw [div_lt_one hden]
    exact_mod_cast Nat.mod_lt num h
  have hhalf : ((num % den : ℕ) : ℚ) / den < 1 / 2 ↔ 2 * (num % den) < den := by
    rw [div_lt_iff₀ hden, ← mul_lt_mul_iff_right₀ (by norm_num : (0 : ℚ) < 2)]
    have hclear : (2 : ℚ) * (1 / 2 * den) = den := by ring
    rw [hclear]
    norm_cast
  have hexact : ((num % den : ℕ) : ℚ) / den = 1 / 2 ↔ 2 * (num % den) = den := by
    rw [div_eq_iff hden.ne', ← mul_right_inj' (by norm_num : (2 : ℚ) ≠ 0)]
    have hclear : (2 : ℚ) * (1 / 2 * den) = den := by ring
    rw [hclear]
    norm_cast
  generalize ((num % den : ℕ) : ℚ) / den = rest at hquotient hrest hlt hhalf hexact
  rw [hquotient, roundQuotient]
  split
  · rename_i hdown
    rw [sub_add_cancel_left, abs_neg, abs_of_nonneg hrest]
    rcases hdown with hless | ⟨htie, heven⟩
    · have hsmall := hhalf.mpr hless
      exact ⟨hsmall.le, fun heq => absurd heq hsmall.ne⟩
    · exact ⟨(hexact.mpr htie).le, fun _ => heven⟩
  · rename_i hup
    obtain ⟨hless, htie⟩ := not_or.mp hup
    have hge : 1 / 2 ≤ rest := not_lt.mp fun hlt => hless (hhalf.mp hlt)
    have hdistance : ((num / den + 1 : ℕ) : ℚ) - ((num / den : ℕ) + rest) = 1 - rest := by
      push_cast
      ring
    rw [hdistance, abs_of_nonneg (by linarith)]
    refine ⟨by linarith, fun heq => ?_⟩
    have hodd : ¬ num / den % 2 = 0 := fun heven => htie ⟨hexact.mp (by linarith), heven⟩
    omega

theorem scaled_spec (num : ℕ) {den : ℕ} (h : 0 < den) (s : ℤ) :
    0 < (scaled num den s).2 ∧
      ((scaled num den s).1 : ℚ) / (scaled num den s).2 = num / den / 2 ^ s := by
  rw [scaled]
  split
  · rename_i hs
    obtain ⟨n, rfl⟩ := Int.eq_ofNat_of_zero_le hs
    refine ⟨Nat.mul_pos h (Nat.pow_pos (by decide)), ?_⟩
    dsimp only [Nat.pow_eq]
    rw [Int.toNat_natCast, zpow_natCast, div_div]
    push_cast
    rfl
  · rename_i hs
    obtain ⟨n, hn⟩ := Int.eq_ofNat_of_zero_le (neg_nonneg.mpr (not_le.mp hs).le)
    obtain rfl : s = -n := by
      have hn' : -s = n := hn
      omega
    refine ⟨h, ?_⟩
    dsimp only [Nat.pow_eq]
    rw [neg_neg, Int.toNat_natCast, zpow_neg, zpow_natCast, div_inv_eq_mul]
    push_cast
    ring

/-! The scale of a quotient -/

/-- The leading bits of a quotient give its size up to a factor of two on each side. -/
theorem quotient_bounds {num den : ℕ} (hnum : num ≠ 0) (hden : den ≠ 0) :
    (2 : ℚ) ^ ((num.log2 : ℤ) - den.log2 - 1) < num / den ∧
      (num : ℚ) / den < 2 ^ ((num.log2 : ℤ) - den.log2 + 1) := by
  have hpos : (0 : ℚ) < den := by exact_mod_cast Nat.pos_of_ne_zero hden
  have hnumLow : (2 : ℚ) ^ (num.log2 : ℤ) ≤ num := by
    exact_mod_cast Nat.log2_self_le hnum
  have hnumHigh : (num : ℚ) < 2 ^ ((num.log2 : ℤ) + 1) := by
    exact_mod_cast Nat.lt_log2_self
  have hdenLow : (2 : ℚ) ^ (den.log2 : ℤ) ≤ den := by
    exact_mod_cast Nat.log2_self_le hden
  have hdenHigh : (den : ℚ) < 2 ^ ((den.log2 : ℤ) + 1) := by
    exact_mod_cast Nat.lt_log2_self
  constructor
  · rw [lt_div_iff₀ hpos]
    calc (2 : ℚ) ^ ((num.log2 : ℤ) - den.log2 - 1) * den
        < 2 ^ ((num.log2 : ℤ) - den.log2 - 1) * 2 ^ ((den.log2 : ℤ) + 1) :=
          mul_lt_mul_of_pos_left hdenHigh (two_zpow_pos _)
      _ = 2 ^ (num.log2 : ℤ) := by
          rw [← two_zpow_add]
          congr 1
          omega
      _ ≤ num := hnumLow
  · rw [div_lt_iff₀ hpos]
    calc (num : ℚ) < 2 ^ ((num.log2 : ℤ) + 1) := hnumHigh
      _ = 2 ^ ((num.log2 : ℤ) - den.log2 + 1) * 2 ^ (den.log2 : ℤ) := by
          rw [← two_zpow_add]
          congr 1
          omega
      _ ≤ 2 ^ ((num.log2 : ℤ) - den.log2 + 1) * den :=
          mul_le_mul_of_nonneg_left hdenLow (two_zpow_pos _).le

theorem div_two_zpow_lt_iff (t : ℚ) (m s : ℤ) : t / 2 ^ s < 2 ^ m ↔ t < 2 ^ (m + s) := by
  rw [div_lt_iff₀ (two_zpow_pos s), two_zpow_add]

theorem le_div_two_zpow_iff (t : ℚ) (m s : ℤ) : 2 ^ m ≤ t / 2 ^ s ↔ 2 ^ (m + s) ≤ t := by
  rw [le_div_iff₀ (two_zpow_pos s), two_zpow_add]

/-- The scale as the leading bits suggest it, one less if the significand would lack a bit. -/
theorem scaleOf_eq (num : ℕ) {den : ℕ} (hden : den ≠ 0) :
    scaleOf num den =
      max (if (num : ℚ) / den < 2 ^ ((num.log2 : ℤ) - den.log2) then
        (num.log2 : ℤ) - den.log2 - 53 else (num.log2 : ℤ) - den.log2 - 52) (-1074) := by
  have hdef : scaleOf num den =
      max (if (scaled num den ((num.log2 : ℤ) - den.log2 - 52)).1 <
          leadingBit * (scaled num den ((num.log2 : ℤ) - den.log2 - 52)).2 then
        (num.log2 : ℤ) - den.log2 - 52 - 1 else (num.log2 : ℤ) - den.log2 - 52) (-1074) := rfl
  obtain ⟨hpos, hquotient⟩ :=
    scaled_spec num (Nat.pos_of_ne_zero hden) ((num.log2 : ℤ) - den.log2 - 52)
  have hshort : (scaled num den ((num.log2 : ℤ) - den.log2 - 52)).1 <
      leadingBit * (scaled num den ((num.log2 : ℤ) - den.log2 - 52)).2 ↔
      (num : ℚ) / den < 2 ^ ((num.log2 : ℤ) - den.log2) := by
    have hexponent : (num.log2 : ℤ) - den.log2 = 52 + ((num.log2 : ℤ) - den.log2 - 52) := by omega
    have hposQ : (0 : ℚ) < (scaled num den ((num.log2 : ℤ) - den.log2 - 52)).2 := by
      exact_mod_cast hpos
    have hlead : ((leadingBit : ℕ) : ℚ) = 2 ^ (52 : ℤ) := by norm_num
    rw [hexponent, ← div_two_zpow_lt_iff, ← hexponent, ← hquotient, div_lt_iff₀ hposQ, ← hlead]
    norm_cast
  rw [hdef]
  simp only [hshort]
  congr 2
  omega

/-- At its scale a quotient has at most 53 bits, and no fewer unless the scale is the least. -/
theorem scaleOf_spec {num den : ℕ} (hnum : num ≠ 0) (hden : den ≠ 0) :
    -1074 ≤ scaleOf num den ∧ (num : ℚ) / den / 2 ^ scaleOf num den < 2 ^ 53 ∧
      (scaleOf num den = -1074 ∨ 2 ^ 52 ≤ (num : ℚ) / den / 2 ^ scaleOf num den) := by
  obtain ⟨hlow, hhigh⟩ := quotient_bounds hnum hden
  have hscale := scaleOf_eq num hden
  generalize (num : ℚ) / den = t at *
  generalize (num.log2 : ℤ) - den.log2 = bits at *
  generalize scaleOf num den = s at *
  have hfifty : ((2 : ℚ) ^ 53 = 2 ^ (53 : ℤ)) ∧ (2 : ℚ) ^ 52 = 2 ^ (52 : ℤ) := by norm_num
  rw [hfifty.1, hfifty.2, div_two_zpow_lt_iff, le_div_two_zpow_iff]
  split at hscale
  · rename_i hshort
    refine ⟨by omega, hshort.trans_le (two_zpow_le (by omega)), ?_⟩
    by_cases hleast : s = -1074
    · exact Or.inl hleast
    · exact Or.inr ((two_zpow_le (by omega)).trans hlow.le)
  · rename_i hfull
    refine ⟨by omega, hhigh.trans_le (two_zpow_le (by omega)), ?_⟩
    by_cases hleast : s = -1074
    · exact Or.inl hleast
    · exact Or.inr ((two_zpow_le (by omega)).trans (not_lt.mp hfull))

/-! Packing -/

theorem ofParts?_eq_none_iff {negative : Bool} {m : ℕ} {s : ℤ} :
    ofParts? negative m s = none ↔ 2 ^ 52 ≤ m ∧ 972 ≤ s := by
  have hlead := leadingBit_eq
  rw [ofParts?]
  split
  · simp only [reduceCtorEq, false_iff]
    omega
  · split
    · simp only [reduceCtorEq, false_iff]
      omega
    · simp only [true_iff]
      omega

theorem ofParts?_spec {negative : Bool} {m : ℕ} {s : ℤ} {x : Binary64} (hm : m < 2 ^ 53)
    (hs : -1074 ≤ s) (hfine : s = -1074 ∨ 2 ^ 52 ≤ m) (h : ofParts? negative m s = some x) :
    x.negative = negative ∧ x.isFinite ∧ x.significand = m ∧ x.scale = s := by
  have hlead := leadingBit_eq
  rw [ofParts?] at h
  split at h
  · rename_i hsmall
    obtain rfl := Option.some.inj h
    refine ⟨rfl, rfl, ?_, ?_⟩
    · have hzero : (0 : Fin 2048).val = 0 := rfl
      rw [significand, if_pos hzero, Fin.val_ofNat, Nat.mod_eq_of_lt hsmall]
    · have hleast : s = -1074 := by omega
      rw [hleast]
      rfl
  · split at h
    · obtain rfl := Option.some.inj h
      have hexponent : (Fin.ofNat 2048 (s + 1075).toNat).val = (s + 1075).toNat := by
        rw [Fin.val_ofNat, Nat.mod_eq_of_lt (by omega)]
      have hfraction : (Fin.ofNat leadingBit (m - leadingBit)).val = m - leadingBit := by
        rw [Fin.val_ofNat, Nat.mod_eq_of_lt (by omega)]
      refine ⟨rfl, ?_, ?_, ?_⟩
      · rw [isFinite, hexponent, bne_iff_ne]
        omega
      · rw [significand, hexponent, hfraction, if_neg (by omega)]
        omega
      · rw [scale, hexponent]
        omega
    · cases h

/-! The nearest double -/

/-- The size from which on no double is nearest. -/
theorem overflow_eq : (2 : ℚ) ^ 1024 - 2 ^ 970 = (2 ^ 53 - 1 / 2) * 2 ^ (971 : ℤ) := by
  have hhigh : (2 : ℚ) ^ 1024 = 2 ^ 53 * 2 ^ 971 := by rw [← pow_add]
  have hlow : (2 : ℚ) ^ 971 = 2 ^ 970 * 2 := by rw [← pow_succ]
  have hlast : (2 : ℚ) ^ (971 : ℤ) = 2 ^ 971 := zpow_natCast 2 971
  rw [hlast, hhigh, hlow]
  generalize (2 : ℚ) ^ 970 = p
  ring

/-- A quotient at its scale, and the integer that it is rounded to. -/
structure Quotient (t : ℚ) (steps : ℕ) (scale : ℤ) : Prop where
  le : -1074 ≤ scale
  lt : t / 2 ^ scale < 2 ^ 53
  fine : scale = -1074 ∨ 2 ^ 52 ≤ t / 2 ^ scale
  close : |(steps : ℚ) - t / 2 ^ scale| ≤ 1 / 2
  tie : |(steps : ℚ) - t / 2 ^ scale| = 1 / 2 → steps % 2 = 0

namespace Quotient

variable {t : ℚ} {steps : ℕ} {scale : ℤ}

theorem steps_le (h : Quotient t steps scale) : steps ≤ 2 ^ 53 := by
  have hclose := abs_le.mp h.close
  have hlt := h.lt
  have hcast : (steps : ℚ) < (2 ^ 53 + 1 : ℕ) := by
    push_cast
    linarith [hclose.2]
  exact Nat.lt_succ_iff.mp (by exact_mod_cast hcast)

theorem le_steps (h : Quotient t steps scale) (hscale : scale ≠ -1074) : 2 ^ 52 ≤ steps := by
  have hclose := abs_le.mp h.close
  have hfine := h.fine.resolve_left hscale
  have hcast : ((2 ^ 52 : ℕ) : ℚ) < (steps + 1 : ℕ) := by
    push_cast
    linarith [hclose.1]
  exact Nat.lt_succ_iff.mp (by exact_mod_cast hcast)

/-- From half a step below `2 ^ 53` on the quotient is rounded up: the largest significand is odd,
so that it does not win the tie. -/
theorem steps_eq_iff (h : Quotient t steps scale) :
    steps = 2 ^ 53 ↔ 2 ^ 53 - 1 / 2 ≤ t / 2 ^ scale := by
  have hmost := h.steps_le
  have hclose := h.close
  have htie := h.tie
  generalize t / 2 ^ scale = q at *
  have hbounds := abs_le.mp hclose
  constructor
  · rintro rfl
    have hhigh := hbounds.2
    push_cast at hhigh
    linarith
  · intro hle
    have hcast : ((2 ^ 53 : ℕ) : ℚ) ≤ (steps + 1 : ℕ) := by
      push_cast
      linarith [hbounds.1]
    have hsteps : 2 ^ 53 ≤ steps + 1 := by exact_mod_cast hcast
    by_contra hne
    obtain rfl : steps = 2 ^ 53 - 1 := by omega
    have hodd : (2 ^ 53 - 1) % 2 ≠ 0 := by decide
    refine hodd (htie (le_antisymm hclose ?_))
    rw [abs_sub_comm, Nat.cast_sub (by decide), abs_of_nonneg]
    · push_cast
      linarith
    · push_cast
      linarith

/-- The largest sizes are rounded up to `2 ^ 1024`, or lie beyond it. -/
theorem overflow_le_iff (h : Quotient t steps scale) :
    2 ^ 1024 - 2 ^ 970 ≤ t ↔ 972 ≤ scale ∨ scale = 971 ∧ steps = 2 ^ 53 := by
  have hpos := two_zpow_pos scale
  have hlast := two_zpow_pos 971
  have ht : t = t / 2 ^ scale * 2 ^ scale := (div_mul_cancel₀ t hpos.ne').symm
  rw [overflow_eq]
  rcases lt_trichotomy scale 971 with hlt | rfl | hgt
  · have hsmall : (2 : ℚ) ^ (scale + 1) ≤ 2 ^ (971 : ℤ) := two_zpow_le (by omega)
    rw [two_zpow_add, zpow_one] at hsmall
    have hbound : t < 2 ^ 53 * 2 ^ scale := by
      rw [ht]
      exact mul_lt_mul_of_pos_right h.lt hpos
    refine iff_of_false ?_ (by omega)
    intro hle
    generalize (2 : ℚ) ^ (971 : ℤ) = last at *
    linarith
  · rw [← le_div_iff₀ hpos, ← h.steps_eq_iff]
    omega
  · have hlarge : (2 : ℚ) ^ ((971 : ℤ) + 1) ≤ 2 ^ scale := two_zpow_le (by omega)
    rw [two_zpow_add, zpow_one] at hlarge
    have hbound : 2 ^ 52 * 2 ^ scale ≤ t := by
      rw [ht]
      exact mul_le_mul_of_nonneg_right (h.fine.resolve_left (by omega)) hpos.le
    refine iff_of_true ?_ (Or.inl (by omega))
    generalize (2 : ℚ) ^ (971 : ℤ) = last at *
    linarith

end Quotient

theorem nearest?_eq {num den : ℕ} (hnum : num ≠ 0) (hden : den ≠ 0) (negative : Bool) :
    ∃ steps scale, Quotient ((num : ℚ) / den) steps scale ∧
      nearest? negative num den =
        if steps = 2 ^ 53 then ofParts? negative (2 ^ 52) (scale + 1)
        else ofParts? negative steps scale := by
  obtain ⟨hle, hlt, hfine⟩ := scaleOf_spec hnum hden
  obtain ⟨hpos, hquotient⟩ := scaled_spec num (Nat.pos_of_ne_zero hden) (scaleOf num den)
  obtain ⟨hclose, htie⟩ := roundQuotient_spec (scaled num den (scaleOf num den)).1 hpos
  rw [hquotient] at hclose htie
  exact ⟨_, _, ⟨hle, hlt, hfine, hclose, htie⟩, rfl⟩

/-- What rounding `± t` has to come to: nothing from halfway between the largest double and
`2 ^ 1024` on, and below that a number of that sign on a grid. -/
structure Rounds (negative : Bool) (t : ℚ) (result : Option Binary64) : Prop where
  none_iff : result = none ↔ 2 ^ 1024 - 2 ^ 970 ≤ t
  rounded : ∀ x, result = some x → x.negative = negative ∧ ∃ steps grid, x.Rounded t steps grid

theorem Quotient.rounded {t : ℚ} {steps : ℕ} {scale : ℤ} (h : Quotient t steps scale)
    {negative : Bool} {x : Binary64}
    (hx : (if steps = 2 ^ 53 then ofParts? negative (2 ^ 52) (scale + 1)
      else ofParts? negative steps scale) = some x) :
    x.negative = negative ∧ x.Rounded t steps scale := by
  have hmost := h.steps_le
  have hleast := h.le_steps
  have hle := h.le
  split at hx
  · rename_i hcarry
    obtain ⟨hnegative, hfinite, hsignificand, hscale⟩ :=
      ofParts?_spec (by decide) (by omega) (Or.inr (le_refl _)) hx
    refine ⟨hnegative, hfinite, ?_, h.close, h.tie, ?_, h.fine⟩
    · rw [size_eq, hsignificand, hscale, hcarry, two_zpow_add]
      push_cast
      ring
    · intro
      rw [← significand_mod_two, hsignificand]
      decide
  · obtain ⟨hnegative, hfinite, hsignificand, hscale⟩ := ofParts?_spec (by omega) hle (by omega) hx
    refine ⟨hnegative, hfinite, ?_, h.close, h.tie, ?_, h.fine⟩
    · rw [size_eq, hsignificand, hscale]
    · intro heven
      rw [← significand_mod_two, hsignificand]
      exact heven

theorem rounds_nearest? {num den : ℕ} (hnum : num ≠ 0) (hden : den ≠ 0) (negative : Bool) :
    Rounds negative (num / den) (nearest? negative num den) := by
  obtain ⟨steps, scale, h, heq⟩ := nearest?_eq hnum hden negative
  have hmost := h.steps_le
  have hleast := h.le_steps
  rw [heq]
  refine ⟨?_, fun x hx => ?_⟩
  · rw [h.overflow_le_iff]
    split <;> rw [ofParts?_eq_none_iff] <;> omega
  · obtain ⟨hnegative, hrounded⟩ := h.rounded hx
    exact ⟨hnegative, steps, scale, hrounded⟩

/-! Decimals -/

theorem digitCount_bounds {n : ℕ} (h : n ≠ 0) :
    10 ^ (digitCount n - 1) ≤ n ∧ n < 10 ^ digitCount n ∧ 0 < digitCount n := by
  have hcount : digitCount n = (Nat.toDigits 10 n).length := if_neg h
  have hpos : 0 < digitCount n := by
    rw [hcount]
    exact List.length_pos_of_ne_nil Nat.toDigits_ne_nil
  refine ⟨?_, ?_, hpos⟩
  · by_contra hlt
    by_cases hone : digitCount n - 1 = 0
    · rw [hone] at hlt
      omega
    · have hle := (Nat.length_toDigits_le_iff (by decide) (Nat.pos_of_ne_zero hone)).mpr
        (not_le.mp hlt)
      omega
  · rw [hcount] at hpos ⊢
    exact (Nat.length_toDigits_le_iff (by decide) hpos).mp (le_refl _)

/-- The count of its digits gives the size of a decimal up to a factor of ten. -/
theorem decimal_bounds {coefficient : ℕ} (h : coefficient ≠ 0) (scale : ℤ) :
    10 ^ (digitCount coefficient + scale - 1) ≤ (coefficient : ℚ) * 10 ^ scale ∧
      (coefficient : ℚ) * 10 ^ scale < 10 ^ (digitCount coefficient + scale) := by
  obtain ⟨hlow, hhigh, hpos⟩ := digitCount_bounds h
  have hten : (10 : ℚ) ≠ 0 := by norm_num
  have hscale : (0 : ℚ) < 10 ^ scale := by positivity
  constructor
  · have hexponent : (digitCount coefficient : ℤ) + scale - 1 =
        (digitCount coefficient - 1 : ℕ) + scale := by omega
    rw [hexponent, zpow_add₀ hten, zpow_natCast]
    exact mul_le_mul_of_nonneg_right (by exact_mod_cast hlow) hscale.le
  · rw [zpow_add₀ hten, zpow_natCast]
    exact mul_lt_mul_of_pos_right (by exact_mod_cast hhigh) hscale

theorem overflow_le : (2 : ℚ) ^ 1024 - 2 ^ 970 ≤ 10 ^ (400 : ℤ) := by
  have hten : (2 ^ 26 : ℚ) ≤ 10 ^ 10 := by norm_num
  have hpow := pow_le_pow_left₀ (by positivity) hten 40
  rw [← pow_mul, ← pow_mul] at hpow
  have hmono : (2 : ℚ) ^ 1024 ≤ 2 ^ (26 * 40) := pow_le_pow_right₀ (by norm_num) (by decide)
  have hpos : (0 : ℚ) < 2 ^ 970 := by positivity
  calc (2 : ℚ) ^ 1024 - 2 ^ 970 ≤ 2 ^ 1024 := sub_le_self _ hpos.le
    _ ≤ 10 ^ (10 * 40) := hmono.trans hpow
    _ = 10 ^ (400 : ℤ) := (zpow_natCast 10 400).symm

/-- Below half of the smallest double every number is rounded to zero. -/
theorem rounded_zero (negative : Bool) {t : ℚ} (h : 0 ≤ t) (hle : t ≤ 2 ^ (-1075 : ℤ)) :
    (zero negative).Rounded t 0 (-1074) := by
  have hpos := two_zpow_pos (-1074)
  have hhalf : (2 : ℚ) ^ (-1075 : ℤ) = 1 / 2 * 2 ^ (-1074 : ℤ) := by
    rw [show (-1075 : ℤ) = -1 + -1074 from rfl, two_zpow_add]
    norm_num
  refine ⟨rfl, ?_, ?_, fun _ => rfl, fun _ => rfl, Or.inl rfl⟩
  · rw [size_eq, show (zero negative).significand = 0 from rfl, Nat.cast_zero, zero_mul, zero_mul]
  · rw [Nat.cast_zero, zero_sub, abs_neg, abs_of_nonneg (by positivity), div_le_iff₀ hpos]
    exact hle.trans hhalf.le

theorem ten_zpow_le : (10 : ℚ) ^ (-400 : ℤ) ≤ 2 ^ (-1075 : ℤ) := by
  have hten : (2 ^ 3 : ℚ) ≤ 10 := by norm_num
  have hpow := pow_le_pow_left₀ (by positivity) hten 400
  rw [← pow_mul] at hpow
  calc (10 : ℚ) ^ (-400 : ℤ) = (10 ^ 400)⁻¹ := zpow_neg_coe_of_pos 10 (by decide)
    _ ≤ (2 ^ (3 * 400))⁻¹ := inv_anti₀ (by positivity) hpow
    _ = 2 ^ (-(1200 : ℕ) : ℤ) := (zpow_neg_coe_of_pos 2 (by decide)).symm
    _ ≤ 2 ^ (-1075 : ℤ) := two_zpow_le (by decide)

theorem rounds_zero (negative : Bool) {t : ℚ} (h : 0 ≤ t) (hle : t ≤ 2 ^ (-1075 : ℤ)) :
    Rounds negative t (some (zero negative)) := by
  refine ⟨?_, ?_⟩
  · have hmono : (2 : ℚ) ^ (-1075 : ℤ) ≤ 2 ^ (971 : ℤ) := two_zpow_le (by decide)
    have hlast := two_zpow_pos 971
    rw [overflow_eq]
    generalize (2 : ℚ) ^ (971 : ℤ) = last at *
    refine iff_of_false (by simp) ?_
    intro hge
    linarith
  · rintro x hx
    obtain rfl := Option.some.inj hx
    exact ⟨rfl, 0, -1074, rounded_zero negative h hle⟩

theorem rounds_ofDecimal? (negative : Bool) (coefficient : ℕ) (scale : ℤ) :
    Rounds negative (coefficient * 10 ^ scale) (ofDecimal? negative coefficient scale) := by
  have hmono {m n : ℤ} (h : m ≤ n) : (10 : ℚ) ^ m ≤ 10 ^ n := zpow_le_zpow_right₀ (by norm_num) h
  rw [ofDecimal?]
  split
  · rename_i hzero
    rw [hzero, Nat.cast_zero, zero_mul]
    exact rounds_zero negative (le_refl 0) (two_zpow_pos _).le
  rename_i hne
  obtain ⟨hlow, hhigh⟩ := decimal_bounds hne scale
  split
  · rename_i hlarge
    have hge := overflow_le.trans ((hmono (by omega)).trans hlow)
    exact ⟨iff_of_true rfl hge, fun x hx => by cases hx⟩
  split
  · rename_i hsmall
    have hle := hhigh.le.trans ((hmono hsmall.le).trans ten_zpow_le)
    exact rounds_zero negative (by positivity) hle
  have hpow (n : ℕ) : Nat.pow 10 n ≠ 0 := (Nat.pow_pos (by decide)).ne'
  split
  · rename_i hscale
    obtain ⟨n, rfl⟩ := Int.eq_ofNat_of_zero_le hscale
    have hrounds := rounds_nearest? (mul_ne_zero hne (hpow n)) one_ne_zero negative
    have hvalue : ((coefficient * Nat.pow 10 n : ℕ) : ℚ) / (1 : ℕ) =
        coefficient * 10 ^ (n : ℤ) := by
      rw [Nat.cast_one, div_one, zpow_natCast, Nat.pow_eq]
      push_cast
      rfl
    rw [hvalue] at hrounds
    exact hrounds
  · rename_i hscale
    obtain ⟨n, hn⟩ := Int.eq_ofNat_of_zero_le (neg_nonneg.mpr (not_le.mp hscale).le)
    have hrounds := rounds_nearest? hne (hpow n) negative
    have hvalue : (coefficient : ℚ) / (Nat.pow 10 n : ℕ) = coefficient * 10 ^ scale := by
      obtain rfl : scale = -n := by
        have hn' : -scale = n := hn
        omega
      rw [zpow_neg, zpow_natCast, Nat.pow_eq, div_eq_mul_inv]
      push_cast
      rfl
    rw [hvalue] at hrounds
    rw [hn]
    exact hrounds

end Exemplar.Binary64

namespace Exemplar.Value

open NumberLiteral

/-- A literal with a mark is read as an exact decimal from halfway between the largest double and
`2 ^ 1024` on. Below that it is read as the nearest double, ties to even, with the sign that is
written; that is one double and no other. -/
theorem ofNumberText?_rounds {text : String} {literal : NumberLiteral}
    (h : literal.Spells text.toList) (hmark : hasMark text.toList = true) :
    ((∃ x, ofNumberText? text = some (.decimal x)) ↔ 2 ^ 1024 - 2 ^ 970 ≤ |literal.value|) ∧
      (|literal.value| < 2 ^ 1024 - 2 ^ 970 →
        ∃ x : Binary64, ofNumberText? text = some (.float x) ∧
          ∀ y : Binary64, y = x ↔ y.negative = literal.negative ∧ y.IsNearest literal.value) := by
  have hwhole : ¬ literal.isWhole := by
    rw [h.isWhole_eq, hmark]
    exact Bool.false_ne_true
  have hsize : 0 ≤ literal.magnitude := by
    rw [magnitude_eq]
    positivity
  have habs : |literal.value| = literal.magnitude := by
    rw [value]
    split
    · rw [abs_neg, abs_of_nonneg hsize]
    · exact abs_of_nonneg hsize
  have hrounds := Binary64.rounds_ofDecimal? literal.negative literal.coefficient literal.scale
  rw [← magnitude_eq] at hrounds
  rw [ofNumberText?_of_spells h, habs, ← hrounds.none_iff]
  rcases ofNumberLiteral_cases hwhole with ⟨x, hread, heq⟩ | ⟨hread, heq⟩
  · obtain ⟨hnegative, steps, grid, hrounded⟩ := hrounds.rounded x hread
    rw [hread, heq]
    refine ⟨iff_of_false (by simp) (by simp), fun _ => ⟨x, rfl, fun y => ?_⟩⟩
    rw [hrounded.eq_iff hsize, hnegative]
    rfl
  · rw [heq]
    refine ⟨iff_of_true ⟨_, rfl⟩ hread, fun hlt => ?_⟩
    exact absurd (hrounds.none_iff.mp hread) (not_le.mpr hlt)

/-- `-2.5e-324` is read as the negative double next to zero. -/
theorem ofNumberText?_rounds_of_least :
    NumberLiteral.Spells ⟨true, ['2'], some ['5'], some (true, ['3', '2', '4'])⟩
        "-2.5e-324".toList ∧
      hasMark "-2.5e-324".toList = true ∧
      ofNumberText? "-2.5e-324" = some (.float ⟨true, 0, 1⟩) ∧
      Binary64.IsNearest ⟨true, 0, 1⟩
        (NumberLiteral.value ⟨true, ['2'], some ['5'], some (true, ['3', '2', '4'])⟩) := by
  have hspells : NumberLiteral.Spells ⟨true, ['2'], some ['5'], some (true, ['3', '2', '4'])⟩
      "-2.5e-324".toList := ofString?_eq_some_iff.mp (by decide +kernel)
  have hmark : hasMark "-2.5e-324".toList = true := by decide +kernel
  have hround : Binary64.ofDecimal? true 25 (-325) = some ⟨true, 0, 1⟩ := by decide +kernel
  have hread : ofNumberText? "-2.5e-324" = some (.float ⟨true, 0, 1⟩) := by
    have hwhole : ¬ NumberLiteral.isWhole
        ⟨true, ['2'], some ['5'], some (true, ['3', '2', '4'])⟩ := Bool.false_ne_true
    rw [ofNumberText?_of_spells hspells]
    rcases ofNumberLiteral_cases hwhole with ⟨x, hx, heq⟩ | ⟨hnone, -⟩
    · rw [heq]
      obtain rfl := Option.some.inj (hround.symm.trans hx)
      rfl
    · cases hround.symm.trans hnone
  obtain ⟨hdecimal, hfloat⟩ := ofNumberText?_rounds hspells hmark
  rw [hread] at hdecimal hfloat
  obtain ⟨x, hx, hnearest⟩ := hfloat (not_le.mp fun hge => by simpa using hdecimal.mpr hge)
  obtain rfl := Value.float.inj (Option.some.inj hx)
  exact ⟨hspells, hmark, hread, ((hnearest _).mp rfl).2⟩

end Exemplar.Value
