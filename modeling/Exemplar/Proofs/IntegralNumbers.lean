import Exemplar.Proofs.CommentTexts
import Exemplar.Proofs.Truncation

/-!
# Integral doubles in comments

Among all patterns of 64 bits, the integral ones are those of the finite doubles that stand for an
integer of a signed word. Such a double is written in a comment as the numeral of that integer,
alone and among the elements of an array: the turn to a signed word neither cuts it off nor stops at
an end of the range.
-/

namespace Exemplar

namespace Binary64

/-- The double stands for an integer in the range of the signed words of 64 bits. -/
structure IsInt64 (x : Binary64) (n : ℤ) : Prop where
  isFinite : x.isFinite
  value_eq : x.value = n
  lower : -2 ^ 63 ≤ n
  upper : n ≤ 2 ^ 63 - 1

theorem value_int64Bound : int64Bound.value = 2 ^ 63 := by
  norm_num [value, size, int64Bound, zero]

/-- The range test and the test for a fractional part. -/
theorem isIntegral_iff_value (x : Binary64) :
    x.isIntegral ↔
      x.isFinite ∧ -2 ^ 63 ≤ x.value ∧ x.value < 2 ^ 63 ∧ ∃ n : ℤ, x.value = n := by
  rw [isIntegral, Bool.and_eq_true, Bool.and_eq_true, Bool.and_eq_true, and_assoc, and_assoc]
  refine and_congr_right fun hfinite => ?_
  have hbound : int64Bound.isFinite := rfl
  have hneg : int64Bound.neg.isFinite := rfl
  rw [isAtMost_iff hneg hfinite, isBelow_iff hfinite hbound,
    equals_iff hfinite (isFinite_trunc hfinite), value_neg, value_int64Bound,
    value_eq_value_trunc_iff]

theorem isIntegral_iff (x : Binary64) : x.isIntegral ↔ ∃ n, x.IsInt64 n := by
  have hrange : ∀ n : ℤ, ((-2 ^ 63 : ℚ) ≤ n ∧ (n : ℚ) < 2 ^ 63) ↔ -2 ^ 63 ≤ n ∧ n ≤ 2 ^ 63 - 1 := by
    intro n
    rw [Int.le_sub_one_iff]
    exact_mod_cast Iff.rfl
  rw [isIntegral_iff_value]
  constructor
  · rintro ⟨hfinite, hlower, hupper, n, hn⟩
    rw [hn] at hlower hupper
    obtain ⟨hlower, hupper⟩ := (hrange n).mp ⟨hlower, hupper⟩
    exact ⟨n, hfinite, hn, hlower, hupper⟩
  · rintro ⟨n, h⟩
    obtain ⟨hlower, hupper⟩ := (hrange n).mpr ⟨h.lower, h.upper⟩
    rw [h.value_eq]
    exact ⟨h.isFinite, hlower, hupper, n, rfl⟩

/-- Neither end of the range is in the way of an integral double, and it has no digits to drop. -/
theorem toInt64_eq {x : Binary64} {n : ℤ} (h : x.IsInt64 n) : x.toInt64 = n := by
  have hlower := h.lower
  have hupper := h.upper
  rw [toInt64, isNaN_of_isFinite h.isFinite, if_neg Bool.false_ne_true,
    integerPart_of_value h.value_eq]
  omega

theorem int64?_eq {x : Binary64} {n : ℤ} (h : x.IsInt64 n) : x.int64? = some n := by
  rw [int64?, if_pos (x.isIntegral_iff.mpr ⟨n, h⟩), toInt64_eq h]

end Binary64

theorem Value.commentText_float {x : Binary64} {n : ℤ} (h : x.IsInt64 n) :
    (float x).commentText = toString n := by
  rw [commentText, Binary64.int64?_eq h]

/-- A double is integral exactly if it stands for an integer of a signed word, and is then written
as that integer, alone and inside an array. -/
theorem Binary64.integers_written_exactly (bits : UInt64) :
    ((ofBits bits).isIntegral ↔ ∃ n, (ofBits bits).IsInt64 n) ∧
      ∀ n, (ofBits bits).IsInt64 n →
        (ofBits bits).toInt64 = n ∧ (Value.float (ofBits bits)).commentText = toString n ∧
          ∀ before after : List Value,
            (Value.array (before ++ .float (ofBits bits) :: after)).commentText =
              "[" ++ ", ".intercalate (before.map Value.commentText ++
                toString n :: after.map Value.commentText) ++ "]" := by
  refine ⟨(ofBits bits).isIntegral_iff, fun n h => ⟨toInt64_eq h, Value.commentText_float h, ?_⟩⟩
  intro before after
  rw [Value.commentText_array, List.map_append, List.map_cons, Value.commentText_float h]

/-- The least signed word. -/
theorem Binary64.integers_written_exactly_of_least :
    let x := ofBits 0xc3e0000000000000
    x.IsInt64 (-2 ^ 63) ∧ x.isIntegral ∧ (Value.float x).commentText = "-9223372036854775808" ∧
      (Value.array [.null, .float x]).commentText = "[null, -9223372036854775808]" := by
  intro x
  have hx : x = ⟨true, 1086, 0⟩ := by decide
  have hleast : x.IsInt64 (-2 ^ 63) := by
    refine ⟨by rw [hx]; rfl, ?_, le_rfl, by norm_num⟩
    rw [hx, value, size]
    norm_num
  obtain ⟨hintegral, htexts⟩ := integers_written_exactly 0xc3e0000000000000
  obtain ⟨-, halone, harray⟩ := htexts (-2 ^ 63) hleast
  exact ⟨hleast, hintegral.mpr ⟨_, hleast⟩, halone, harray [.null] []⟩

end Exemplar
