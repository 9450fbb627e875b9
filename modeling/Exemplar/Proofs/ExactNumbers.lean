import Exemplar.Value
import Exemplar.Proofs.NumberGrammar
import Mathlib.Algebra.Order.Ring.Rat

/-!
# Numbers are exact

A text has a value exactly if it is a number literal. Integers of any size and exact decimals denote
the number that is written, digit for digit: an integer is shown as it was written, and the text of
a number beyond the machine's own is read as that number again. Rounding to binary64 is not the
subject here.
-/

namespace Exemplar

open NumberLiteral

/-! Numerals -/

theorem exists_digitChar {c : Char} (h : c.isDigit) : ∃ d < 10, c = Nat.digitChar d := by
  obtain ⟨hlow, hhigh⟩ := Char.isDigit_iff_toNat.mp h
  rw [show '0'.toNat = 48 from rfl] at hlow
  rw [show '9'.toNat = 57 from rfl] at hhigh
  have hlt : c.toNat - 48 < 10 := by omega
  refine ⟨c.toNat - 48, hlt, Char.toNat_inj.mp ?_⟩
  rw [Nat.toNat_digitChar_of_lt_ten hlt]
  omega

theorem digitRun_toDigits (n : ℕ) : DigitRun (Nat.toDigits 10 n) where
  ne_nil := Nat.toDigits_ne_nil
  isDigit _ := Nat.isDigit_of_mem_toDigits (by decide) (by decide)

theorem head_toDigits {n : ℕ} (h : n ≠ 0) : (Nat.toDigits 10 n).head? ≠ some '0' := by
  induction n using Nat.strongRecOn with
  | ind n ih =>
    rw [Nat.toDigits_eq_if (by decide)]
    split
    · rw [List.head?_cons, ne_eq, Option.some.injEq, Nat.digitChar_eq_zero]
      exact h
    · rename_i hge
      rw [List.head?_append_of_ne_nil _ Nat.toDigits_ne_nil]
      exact ih (n / 10) (by omega) (by omega)

theorem wholeText_toDigits (n : ℕ) : WholeText (Nat.toDigits 10 n) := by
  by_cases h : n = 0
  · rw [h, Nat.toDigits_zero]
    exact .zero
  · exact .run (digitRun_toDigits n) (head_toDigits h)

theorem exists_toDigits_of_run {digits : List Char} (hrun : DigitRun digits)
    (hhead : digits.head? ≠ some '0') : ∃ n ≠ 0, digits = Nat.toDigits 10 n := by
  induction digits using List.reverseRecOn with
  | nil => exact absurd rfl hrun.ne_nil
  | append_singleton digits c ih =>
    obtain ⟨d, hd, rfl⟩ := exists_digitChar (hrun.isDigit c (by simp))
    rcases digits.eq_nil_or_concat with rfl | ⟨_, _, hconcat⟩
    · refine ⟨d, ?_, (Nat.toDigits_of_lt_base hd).symm⟩
      rintro rfl
      exact hhead rfl
    · have hne : digits ≠ [] := by
        rw [hconcat]
        simp
      rw [List.head?_append_of_ne_nil _ hne] at hhead
      have hprefix : DigitRun digits :=
        ⟨hne, fun c hc => hrun.isDigit c (List.mem_append_left _ hc)⟩
      obtain ⟨n, hn, htext⟩ := ih hprefix hhead
      refine ⟨10 * n + d, by omega, ?_⟩
      rw [htext, ← Nat.toDigits_append_toDigits (by decide) (Nat.pos_of_ne_zero hn) hd,
        Nat.toDigits_of_lt_base hd]

theorem WholeText.isDigit {whole : List Char} (h : WholeText whole) : ∀ c ∈ whole, c.isDigit := by
  cases h with
  | zero =>
    rintro c hc
    obtain rfl := List.mem_singleton.mp hc
    rfl
  | run hrun => exact hrun.isDigit

/-- A whole part is the numeral of a natural number. -/
theorem exists_toDigits {whole : List Char} (h : WholeText whole) :
    ∃ n, whole = Nat.toDigits 10 n := by
  cases h with
  | zero => exact ⟨0, rfl⟩
  | run hrun hhead =>
    obtain ⟨n, -, htext⟩ := exists_toDigits_of_run hrun hhead
    exact ⟨n, htext⟩

/-- An integer is shown by its sign and the numeral of its size. -/
theorem toList_toString (n : ℤ) :
    (toString n).toList = signText (n < 0) ++ Nat.toDigits 10 n.natAbs := by
  rw [Int.toString_eq_repr, Int.repr_eq_if, Nat.repr_eq_ofList_toDigits]
  split
  · rename_i h
    have hsize : n.toNat = n.natAbs := by omega
    rw [String.toList_ofList, hsize, signText, if_neg (by simpa using h), List.nil_append]
  · rename_i h
    have hsize : (-n).toNat = n.natAbs := by omega
    rw [Nat.repr_eq_ofList_toDigits, hsize, signText, if_pos (by simpa using h),
      String.toList_append, String.toList_ofList, String.toList_ofList]

namespace NumberLiteral

/-- Whether a text has a point or an exponent mark. -/
def hasMark (text : List Char) : Bool := text.any fun c => c = '.' || c = 'e' || c = 'E'

theorem hasMark_append (text more : List Char) :
    hasMark (text ++ more) = (hasMark text || hasMark more) := List.any_append

theorem hasMark_of_isDigit {digits : List Char} (h : ∀ c ∈ digits, c.isDigit) :
    hasMark digits = false := by
  rw [hasMark, List.any_eq_false]
  intro c hc hmark
  have hdigit := h c hc
  simp only [Bool.or_eq_true, decide_eq_true_eq] at hmark
  rcases hmark with (rfl | rfl) | rfl <;> contradiction

/-- A literal is written with a mark unless it is written as an integer. -/
theorem Spells.isWhole_eq {literal : NumberLiteral} {text : List Char} (h : literal.Spells text) :
    literal.isWhole = !hasMark text := by
  obtain ⟨negative, hwhole, hfraction, hexponent⟩ := h
  have hsign : hasMark (signText negative) = false := by cases negative <;> rfl
  rw [hasMark_append, hasMark_append, hasMark_append, hsign, hasMark_of_isDigit hwhole.isDigit]
  cases hfraction with
  | digits => rfl
  | absent =>
    cases hexponent with
    | absent => rfl
    | plain hmark | plus hmark | minus hmark => rcases hmark with rfl | rfl <;> rfl

/-- The text of an integer literal is its sign and a numeral. -/
theorem Spells.exists_of_isWhole {literal : NumberLiteral} {text : List Char}
    (h : literal.Spells text) (hwhole : literal.isWhole) :
    ∃ n, text = signText literal.negative ++ Nat.toDigits 10 n ∧ literal.coefficient = n := by
  obtain ⟨negative, hwholeText, hfraction, hexponent⟩ := h
  obtain ⟨n, rfl⟩ := exists_toDigits hwholeText
  cases hfraction with
  | digits => cases hwhole
  | absent =>
    cases hexponent with
    | absent =>
      refine ⟨n, by simp, ?_⟩
      rw [coefficient, digitsValue_eq_ofDigitChars, Option.getD_none, List.append_nil,
        Nat.ofDigitChars_ten_toDigits]
    | plain | plus | minus => cases hwhole

/-- An integer literal is the text of its value, unless it is the negative zero. -/
theorem Spells.text_eq {literal : NumberLiteral} {text : String} (h : literal.Spells text.toList)
    (hwhole : literal.isWhole) :
    toString literal.signedCoefficient = if text = "-0" then "0" else text := by
  obtain ⟨n, htext, hcoefficient⟩ := h.exists_of_isWhole hwhole
  rw [signedCoefficient, hcoefficient]
  apply String.toList_inj.mp
  cases hnegative : literal.negative with
  | false =>
    rw [hnegative, signText, if_neg Bool.false_ne_true, List.nil_append] at htext
    have hne : text ≠ "-0" := by
      rintro rfl
      have hmem : '-' ∈ Nat.toDigits 10 n := by
        rw [← htext]
        exact List.mem_cons_self
      have hdigit := Nat.isDigit_of_mem_toDigits (by decide) (by decide) hmem
      contradiction
    rw [if_neg Bool.false_ne_true, if_neg hne, toList_toString, htext, Int.natAbs_natCast, signText,
      if_neg (by simp), List.nil_append]
  | true =>
    rw [hnegative, signText, if_pos rfl] at htext
    by_cases hn : n = 0
    · have hzero : text = "-0" := String.toList_inj.mp (by rw [htext, hn]; rfl)
      rw [if_pos rfl, if_pos hzero, hn]
      rfl
    · have hne : text ≠ "-0" := by
        rintro rfl
        have hdigits : Nat.toDigits 10 n = ['0'] := (List.cons.inj htext).2.symm
        have hhead := head_toDigits hn
        rw [hdigits] at hhead
        exact hhead rfl
      have hsign : (-(n : ℤ)) < 0 := by omega
      rw [if_pos rfl, if_neg hne, toList_toString, htext, Int.natAbs_neg, Int.natAbs_natCast,
        signText, if_pos (by simpa using hsign)]

/-- The literal that shows an integer, with an exponent behind it. -/
def numeral (n : ℤ) (exponent : Option (Bool × List Char)) : NumberLiteral :=
  ⟨n < 0, Nat.toDigits 10 n.natAbs, none, exponent⟩

theorem coefficient_numeral (n : ℤ) (exponent : Option (Bool × List Char)) :
    (numeral n exponent).coefficient = n.natAbs := by
  rw [coefficient, digitsValue_eq_ofDigitChars, numeral, Option.getD_none, List.append_nil,
    Nat.ofDigitChars_ten_toDigits]

theorem signedCoefficient_numeral (n : ℤ) (exponent : Option (Bool × List Char)) :
    (numeral n exponent).signedCoefficient = n := by
  rw [signedCoefficient, coefficient_numeral, numeral]
  by_cases h : n < 0
  · rw [if_pos (by simpa using h)]
    omega
  · rw [if_neg (by simpa using h)]
    omega

theorem spells_toString (n : ℤ) : (numeral n none).Spells (toString n).toList := by
  have htext : (toString n).toList =
      signText (n < 0) ++ (Nat.toDigits 10 n.natAbs ++ ([] ++ [])) := by
    rw [toList_toString, List.append_nil, List.append_nil]
  rw [htext]
  exact .parts _ (wholeText_toDigits _) .absent .absent

end NumberLiteral

namespace BigDecimal

/-- The literal that the text of an exact decimal is. -/
def literal (x : BigDecimal) : NumberLiteral :=
  numeral x.coefficient (some (x.exponent < 0, Nat.toDigits 10 x.exponent.natAbs))

theorem spells_text (x : BigDecimal) : x.literal.Spells x.text.toList := by
  have htext : x.text.toList =
      signText (x.coefficient < 0) ++ (Nat.toDigits 10 x.coefficient.natAbs ++
        ([] ++ 'e' :: (signText (x.exponent < 0) ++ Nat.toDigits 10 x.exponent.natAbs))) := by
    have hparts : x.text = toString x.coefficient ++ "e" ++ toString x.exponent := rfl
    rw [hparts, String.toList_append, String.toList_append, toList_toString, toList_toString]
    simp
  have hrun := digitRun_toDigits x.exponent.natAbs
  rw [htext]
  refine .parts _ (wholeText_toDigits _) .absent ?_
  cases decide (x.exponent < 0) with
  | false => exact .plain (Or.inl rfl) hrun
  | true => exact .minus (Or.inl rfl) hrun

theorem scale_literal (x : BigDecimal) : x.literal.scale = x.exponent := by
  rw [exponentValue_eq, literal, numeral, Option.getD_none, List.length_nil]
  by_cases h : x.exponent < 0
  · rw [decide_eq_true h, exponentValue, Nat.ofDigitChars_ten_toDigits]
    omega
  · rw [decide_eq_false h, exponentValue, Nat.ofDigitChars_ten_toDigits]
    omega

end BigDecimal

/-! Reading -/

theorem fitsInt64_iff (n : ℤ) : fitsInt64 n ↔ (-2 ^ 63 : ℚ) ≤ n ∧ (n : ℚ) ≤ 2 ^ 63 - 1 := by
  have hlow : (-2 ^ 63 : ℚ) = (-0x8000000000000000 : ℤ) := by norm_num
  have hhigh : (2 ^ 63 - 1 : ℚ) = (0x7fffffffffffffff : ℤ) := by norm_num
  rw [hlow, hhigh, Int.cast_le, Int.cast_le, fitsInt64, Bool.and_eq_true, decide_eq_true_eq,
    decide_eq_true_eq]
  omega

namespace Value

theorem ofNumberText?_eq_some_iff {text : String} {v : Value} :
    ofNumberText? text = some v ↔
      ∃ literal : NumberLiteral, literal.Spells text.toList ∧ ofNumberLiteral literal = v := by
  rw [ofNumberText?, Option.map_eq_some_iff]
  simp only [ofString?_eq_some_iff]

theorem ofNumberText?_of_spells {text : String} {literal : NumberLiteral}
    (h : literal.Spells text.toList) : ofNumberText? text = some (ofNumberLiteral literal) :=
  ofNumberText?_eq_some_iff.mpr ⟨literal, h, rfl⟩

theorem ofNumberLiteral_of_isWhole {literal : NumberLiteral} (h : literal.isWhole) :
    ofNumberLiteral literal = .integer literal.signedCoefficient := by
  rw [ofNumberLiteral, if_pos h]

/-- A literal with a mark is read as a binary64 number, or else as an exact decimal. -/
theorem ofNumberLiteral_cases {literal : NumberLiteral} (h : ¬ literal.isWhole) :
    (∃ x, Binary64.ofDecimal? literal.negative literal.coefficient literal.scale = some x ∧
        ofNumberLiteral literal = .float x) ∨
      Binary64.ofDecimal? literal.negative literal.coefficient literal.scale = none ∧
        ofNumberLiteral literal = .decimal ⟨literal.signedCoefficient, literal.scale⟩ := by
  rw [ofNumberLiteral, if_neg h]
  cases hread : Binary64.ofDecimal? literal.negative literal.coefficient literal.scale with
  | some x => exact Or.inl ⟨x, rfl, rfl⟩
  | none => exact Or.inr ⟨rfl, rfl⟩

theorem scale_of_isWhole {literal : NumberLiteral} (h : literal.isWhole) : literal.scale = 0 := by
  obtain ⟨hfraction, hexponent⟩ := (Bool.and_eq_true _ _).mp h
  rw [exponentValue_eq, Option.isNone_iff_eq_none.mp hfraction,
    Option.isNone_iff_eq_none.mp hexponent]
  rfl

/-- Where binary64 gives up a literal, the exact decimal in its place is written by a literal that
binary64 gives up as well. -/
theorem ofNumberLiteral_literal {literal : NumberLiteral}
    (h : Binary64.ofDecimal? literal.negative literal.coefficient literal.scale = none) :
    ofNumberLiteral (BigDecimal.literal ⟨literal.signedCoefficient, literal.scale⟩) =
      .decimal ⟨literal.signedCoefficient, literal.scale⟩ := by
  have hne : literal.coefficient ≠ 0 := by
    intro hzero
    rw [hzero, Binary64.ofDecimal?, if_pos rfl] at h
    cases h
  generalize hx : (⟨literal.signedCoefficient, literal.scale⟩ : BigDecimal) = x
  have hcoefficient : x.coefficient = literal.signedCoefficient := by rw [← hx]
  have hexponent : x.exponent = literal.scale := by rw [← hx]
  have hnegative : x.literal.negative = literal.negative := by
    rw [BigDecimal.literal, numeral, hcoefficient, signedCoefficient]
    cases literal.negative with
    | true =>
      rw [if_pos rfl, decide_eq_true_eq]
      omega
    | false =>
      rw [if_neg Bool.false_ne_true, decide_eq_false_iff_not]
      omega
  have hsize : x.literal.coefficient = literal.coefficient := by
    rw [BigDecimal.literal, coefficient_numeral, hcoefficient, signedCoefficient]
    split <;> omega
  have hread : Binary64.ofDecimal? x.literal.negative x.literal.coefficient x.literal.scale =
      none := by
    rw [hnegative, hsize, x.scale_literal, hexponent, h]
  have hmark : ¬ x.literal.isWhole := Bool.false_ne_true
  rcases ofNumberLiteral_cases hmark with ⟨y, hy, -⟩ | ⟨-, heq⟩
  · rw [hread] at hy
    cases hy
  · rw [heq, x.scale_literal, BigDecimal.literal, signedCoefficient_numeral]

/-- The text, which writes the number `q`, has been read as `v` without loss: nothing but a mark
makes it anything else than an integer, integers and exact decimals equal `q`, an integer is shown
as it was written, and the text of a number that is too large for the machine is read as that
number. -/
structure ReadExactly (text : String) (q : ℚ) (v : Value) : Prop where
  isInteger : v.scalarKind? = some .int64 ∨ v.scalarKind? = some .bigInteger ↔
    hasMark text.toList = false
  fits : v.scalarKind? = some .int64 ↔
    hasMark text.toList = false ∧ -2 ^ 63 ≤ q ∧ q ≤ 2 ^ 63 - 1
  integer : ∀ n, v = .integer n → (n : ℚ) = q
  decimal : ∀ x, v = .decimal x → (x.coefficient : ℚ) * 10 ^ x.exponent = q
  shown : ∀ n, v = .integer n → v.text = if text = "-0" then "0" else text
  reread : v.scalarKind? = some .bigInteger ∨ v.scalarKind? = some .bigFloat →
    ofNumberText? v.text = some v

theorem readExactly_integer {text : String} {literal : NumberLiteral}
    (h : literal.Spells text.toList) (hwhole : literal.isWhole) :
    (Value.integer literal.signedCoefficient).ReadExactly text literal.value := by
  have hmark : hasMark text.toList = false := by
    rw [h.isWhole_eq, Bool.not_eq_true'] at hwhole
    exact hwhole
  have hvalue : literal.value = literal.signedCoefficient := by
    rw [value_eq, scale_of_isWhole hwhole, zpow_zero, mul_one]
  have hkind : (Value.integer literal.signedCoefficient).scalarKind? =
      some (if fitsInt64 literal.signedCoefficient then .int64 else .bigInteger) := rfl
  refine ⟨?_, ?_, ?_, ?_, ?_, ?_⟩
  · rw [hkind]
    refine iff_of_true ?_ hmark
    split <;> simp
  · rw [hkind, hvalue, ← fitsInt64_iff]
    split <;> simp_all
  · rintro n hn
    rw [hvalue, Value.integer.inj hn]
  · rintro x ⟨⟩
  · rintro n -
    exact h.text_eq hwhole
  · rintro -
    change ofNumberText? (toString literal.signedCoefficient) = _
    rw [ofNumberText?_of_spells (spells_toString _), ofNumberLiteral_of_isWhole rfl,
      signedCoefficient_numeral]

theorem readExactly_marked {text : String} {literal : NumberLiteral}
    (h : literal.Spells text.toList) (hwhole : ¬ literal.isWhole) :
    (ofNumberLiteral literal).ReadExactly text literal.value := by
  have hmark : hasMark text.toList = true := by
    rw [h.isWhole_eq, Bool.not_eq_true', Bool.not_eq_false] at hwhole
    exact hwhole
  rcases ofNumberLiteral_cases hwhole with ⟨x, -, heq⟩ | ⟨hread, heq⟩
  · rw [heq]
    refine ⟨?_, ?_, ?_, ?_, ?_, ?_⟩
    · simp [scalarKind?, hmark]
    · simp [scalarKind?, hmark]
    · rintro n ⟨⟩
    · rintro y ⟨⟩
    · rintro n ⟨⟩
    · simp [scalarKind?]
  · have hagain := ofNumberLiteral_literal hread
    rw [heq]
    refine ⟨?_, ?_, ?_, ?_, ?_, ?_⟩
    · simp [scalarKind?, hmark]
    · simp [scalarKind?, hmark]
    · rintro n ⟨⟩
    · rintro x hx
      rw [← Value.decimal.inj hx, value_eq]
    · rintro n ⟨⟩
    · rintro -
      change ofNumberText? (BigDecimal.text _) = _
      rw [ofNumberText?_of_spells (BigDecimal.spells_text _), hagain]

/-- A text is read as a number exactly if it is a number literal, and then without loss. -/
theorem ofNumberText?_exact (text : String) :
    ((ofNumberText? text).isSome ↔ ∃ literal : NumberLiteral, literal.Spells text.toList) ∧
      ∀ (literal : NumberLiteral) (v : Value), literal.Spells text.toList →
        ofNumberText? text = some v → v.ReadExactly text literal.value := by
  refine ⟨?_, ?_⟩
  · rw [Option.isSome_iff_exists]
    simp only [ofNumberText?_eq_some_iff]
    exact ⟨fun ⟨_, literal, h, _⟩ => ⟨literal, h⟩, fun ⟨literal, h⟩ => ⟨_, literal, h, rfl⟩⟩
  · rintro literal v h hv
    rw [ofNumberText?_of_spells h] at hv
    obtain rfl := Option.some.inj hv
    by_cases hwhole : literal.isWhole
    · rw [ofNumberLiteral_of_isWhole hwhole]
      exact readExactly_integer h hwhole
    · exact readExactly_marked h hwhole

/-- `-12.50e+400` is read as `-1250 · 10 ^ 398`, and so is the text of that. -/
theorem ofNumberText?_exact_of_decimal :
    NumberLiteral.Spells ⟨true, ['1', '2'], some ['5', '0'], some (false, ['4', '0', '0'])⟩
        "-12.50e+400".toList ∧
      ofNumberText? "-12.50e+400" = some (.decimal ⟨-1250, 398⟩) ∧
      (Value.decimal ⟨-1250, 398⟩).ReadExactly "-12.50e+400"
        (NumberLiteral.value
          ⟨true, ['1', '2'], some ['5', '0'], some (false, ['4', '0', '0'])⟩) := by
  have hspells : NumberLiteral.Spells
      ⟨true, ['1', '2'], some ['5', '0'], some (false, ['4', '0', '0'])⟩ "-12.50e+400".toList :=
    ofString?_eq_some_iff.mp (by decide +kernel)
  have hread : ofNumberText? "-12.50e+400" = some (.decimal ⟨-1250, 398⟩) := by
    rw [ofNumberText?_of_spells hspells]
    rfl
  exact ⟨hspells, hread, (ofNumberText?_exact "-12.50e+400").2 _ _ hspells hread⟩

end Value

end Exemplar
