import Exemplar.Number.Literal
import Mathlib.Algebra.Order.Field.Rat
import Mathlib.Data.List.TakeDrop
import Mathlib.Data.List.TakeWhile
import Mathlib.Tactic.FieldSimp
import Mathlib.Tactic.Positivity
import Mathlib.Tactic.Ring

/-!
# The grammar of number literals

Number literals are described once more, without reading them: a text spells the parts of a literal
if it is the sign, the whole part, the fraction and the exponent written one after another, and the
number that is written is the sum of its digits, each with the weight of its place. Splitting a text
into parts finds the parts that it spells, and `± coefficient · 10 ^ scale` is the number written.
-/

namespace Exemplar

/-- One or more decimal digits. -/
structure DigitRun (digits : List Char) : Prop where
  ne_nil : digits ≠ []
  isDigit : ∀ c ∈ digits, c.isDigit

/-- Nothing follows that would make a run of digits longer. -/
def EndsRun (rest : List Char) : Prop := ∀ c ∈ rest.head?, c.isDigit = false

/-- A whole part: a zero, or a run that does not begin with one. -/
inductive WholeText : List Char → Prop
  | zero : WholeText ['0']
  | run {digits : List Char} : DigitRun digits → digits.head? ≠ some '0' → WholeText digits

/-- How a fraction is written, if there is one. -/
inductive FractionText : Option (List Char) → List Char → Prop
  | absent : FractionText none []
  | digits {digits : List Char} : DigitRun digits → FractionText (some digits) ('.' :: digits)

/-- How an exponent is written, if there is one. A plus sign may stand before its digits. -/
inductive ExponentText : Option (Bool × List Char) → List Char → Prop
  | absent : ExponentText none []
  | plain {mark : Char} {digits : List Char} (hmark : mark = 'e' ∨ mark = 'E') :
    DigitRun digits → ExponentText (some (false, digits)) (mark :: digits)
  | plus {mark : Char} {digits : List Char} (hmark : mark = 'e' ∨ mark = 'E') :
    DigitRun digits → ExponentText (some (false, digits)) (mark :: '+' :: digits)
  | minus {mark : Char} {digits : List Char} (hmark : mark = 'e' ∨ mark = 'E') :
    DigitRun digits → ExponentText (some (true, digits)) (mark :: '-' :: digits)

namespace NumberLiteral

def signText (negative : Bool) : List Char := if negative then ['-'] else []

/-- The text is a number literal with these parts. -/
inductive Spells : NumberLiteral → List Char → Prop
  | parts (negative : Bool) {whole fractionText exponentText : List Char}
    {fraction : Option (List Char)} {exponent : Option (Bool × List Char)} :
    WholeText whole → FractionText fraction fractionText → ExponentText exponent exponentText →
    Spells ⟨negative, whole, fraction, exponent⟩
      (signText negative ++ (whole ++ (fractionText ++ exponentText)))

/-- The number that the digits after the point add. -/
def fractionValue : Option (List Char) → ℚ
  | none => 0
  | some digits => Nat.ofDigitChars 10 digits 0 / 10 ^ digits.length

def exponentValue : Option (Bool × List Char) → ℤ
  | none => 0
  | some (false, digits) => Nat.ofDigitChars 10 digits 0
  | some (true, digits) => -Nat.ofDigitChars 10 digits 0

/-- The number that a literal writes, without its sign. -/
def magnitude (literal : NumberLiteral) : ℚ :=
  (Nat.ofDigitChars 10 literal.whole 0 + fractionValue literal.fraction) *
    10 ^ exponentValue literal.exponent

/-- The number that a literal writes. -/
def value (literal : NumberLiteral) : ℚ :=
  if literal.negative then -literal.magnitude else literal.magnitude

/-! Splitting a text -/

theorem readDigits?_eq_some_iff_takeWhile {text digits rest : List Char} :
    readDigits? text = some (digits, rest) ↔
      digits ≠ [] ∧ text.takeWhile Char.isDigit = digits ∧ text.dropWhile Char.isDigit = rest := by
  rw [readDigits?, List.span_eq_takeWhile_dropWhile]
  split
  · rename_i htake
    obtain ⟨htake, -⟩ := Prod.mk.inj htake
    rw [htake]
    constructor
    · intro h
      cases h
    · rintro ⟨hne, rfl, -⟩
      exact absurd rfl hne
  · rename_i hne
    constructor
    · intro h
      obtain ⟨htake, hdrop⟩ := Prod.mk.inj (Option.some.inj h)
      refine ⟨?_, htake, hdrop⟩
      rintro rfl
      exact hne _ (by rw [htake])
    · rintro ⟨-, rfl, rfl⟩
      rfl

theorem EndsRun.takeWhile_eq {rest : List Char} (h : EndsRun rest) :
    rest.takeWhile Char.isDigit = [] ∧ rest.dropWhile Char.isDigit = rest := by
  cases rest with
  | nil => exact ⟨rfl, rfl⟩
  | cons c rest =>
    have hc := h c rfl
    exact ⟨List.takeWhile_cons_of_neg (by simp [hc]), List.dropWhile_cons_of_neg (by simp [hc])⟩

theorem readDigits?_eq_some_iff {text digits rest : List Char} :
    readDigits? text = some (digits, rest) ↔
      DigitRun digits ∧ text = digits ++ rest ∧ EndsRun rest := by
  rw [readDigits?_eq_some_iff_takeWhile]
  constructor
  · rintro ⟨hne, rfl, rfl⟩
    refine ⟨⟨hne, fun c hc => List.mem_takeWhile_imp hc⟩, List.takeWhile_append_dropWhile.symm, ?_⟩
    intro c hc
    have hhead := List.head?_dropWhile_not Char.isDigit text
    rw [Option.mem_def.mp hc] at hhead
    exact hhead
  · rintro ⟨⟨hne, hdigits⟩, rfl, hends⟩
    obtain ⟨htake, hdrop⟩ := EndsRun.takeWhile_eq hends
    refine ⟨hne, ?_, ?_⟩
    · rw [List.takeWhile_append_of_pos hdigits, htake, List.append_nil]
    · rw [List.dropWhile_append_of_pos hdigits, hdrop]

theorem EndsRun.nil : EndsRun [] := by
  rintro c ⟨⟩

theorem readWhole?_sound {text whole rest : List Char} (h : readWhole? text = some (whole, rest)) :
    WholeText whole ∧ text = whole ++ rest := by
  rw [readWhole?.eq_def] at h
  split at h
  · obtain ⟨rfl, rfl⟩ := Prod.mk.inj (Option.some.inj h)
    exact ⟨.zero, rfl⟩
  · rename_i hzero
    obtain ⟨hrun, htext, -⟩ := readDigits?_eq_some_iff.mp h
    refine ⟨.run hrun ?_, htext⟩
    intro hhead
    obtain ⟨more, rfl⟩ := List.head?_eq_some_iff.mp hhead
    exact hzero _ htext

theorem readWhole?_append {whole rest : List Char} (h : WholeText whole) (hends : EndsRun rest) :
    readWhole? (whole ++ rest) = some (whole, rest) := by
  cases h with
  | zero => rfl
  | run hrun hhead =>
    rw [readWhole?.eq_def]
    split
    · rename_i htext
      obtain ⟨c, more, rfl⟩ := List.exists_cons_of_ne_nil hrun.ne_nil
      obtain ⟨rfl, -⟩ := List.cons.inj htext
      exact absurd rfl hhead
    · exact readDigits?_eq_some_iff.mpr ⟨hrun, rfl, hends⟩

theorem readFraction?_sound {text rest : List Char} {fraction : Option (List Char)}
    (h : readFraction? text = some (fraction, rest)) :
    ∃ fractionText, FractionText fraction fractionText ∧ text = fractionText ++ rest := by
  rw [readFraction?.eq_def] at h
  split at h
  · obtain ⟨⟨digits, rest'⟩, hdigits, hpair⟩ := Option.map_eq_some_iff.mp h
    obtain ⟨rfl, rfl⟩ := Prod.mk.inj hpair
    obtain ⟨hrun, rfl, -⟩ := readDigits?_eq_some_iff.mp hdigits
    exact ⟨_, .digits hrun, rfl⟩
  · obtain ⟨rfl, rfl⟩ := Prod.mk.inj (Option.some.inj h)
    exact ⟨[], .absent, rfl⟩

theorem readFraction?_append {fractionText rest : List Char} {fraction : Option (List Char)}
    (h : FractionText fraction fractionText) (hends : EndsRun rest)
    (hpoint : rest.head? ≠ some '.') :
    readFraction? (fractionText ++ rest) = some (fraction, rest) := by
  cases h with
  | absent =>
    rw [List.nil_append, readFraction?.eq_def]
    split
    · exact absurd rfl hpoint
    · rfl
  | digits hrun =>
    rw [List.cons_append, readFraction?, readDigits?_eq_some_iff.mpr ⟨hrun, rfl, hends⟩]
    rfl

theorem readExponentSign_of_isDigit {c : Char} (h : c.isDigit) (text : List Char) :
    readExponentSign (c :: text) = (false, c :: text) := by
  rw [readExponentSign.eq_def]
  split
  · rename_i htext
    obtain ⟨rfl, -⟩ := List.cons.inj htext
    contradiction
  · rename_i htext
    obtain ⟨rfl, -⟩ := List.cons.inj htext
    contradiction
  · rfl

theorem readExponentSign_sound {text rest : List Char} {negative : Bool} {mark : Char}
    {digits : List Char} (hmark : mark = 'e' ∨ mark = 'E') (hrun : DigitRun digits)
    (h : readExponentSign text = (negative, digits ++ rest)) :
    ∃ exponentText, ExponentText (some (negative, digits)) exponentText ∧
      mark :: text = exponentText ++ rest := by
  rw [readExponentSign.eq_def] at h
  split at h
  · obtain ⟨rfl, rfl⟩ := Prod.mk.inj h
    exact ⟨_, .minus hmark hrun, rfl⟩
  · obtain ⟨rfl, rfl⟩ := Prod.mk.inj h
    exact ⟨_, .plus hmark hrun, rfl⟩
  · obtain ⟨rfl, rfl⟩ := Prod.mk.inj h
    exact ⟨_, .plain hmark hrun, rfl⟩

theorem readExponent?_sound {text rest : List Char} {exponent : Option (Bool × List Char)}
    (h : readExponent? text = some (exponent, rest)) :
    ∃ exponentText, ExponentText exponent exponentText ∧ text = exponentText ++ rest := by
  rw [readExponent?.eq_def] at h
  split at h
  · split at h
    · rename_i c text hmark
      rcases hsign : readExponentSign text with ⟨negative, more⟩
      rw [hsign] at h
      obtain ⟨⟨digits, rest'⟩, hdigits, hpair⟩ := Option.map_eq_some_iff.mp h
      obtain ⟨rfl, rfl⟩ := Prod.mk.inj hpair
      obtain ⟨hrun, rfl, -⟩ := readDigits?_eq_some_iff.mp hdigits
      exact readExponentSign_sound hmark hrun hsign
    · obtain ⟨rfl, rfl⟩ := Prod.mk.inj (Option.some.inj h)
      exact ⟨[], .absent, rfl⟩
  · obtain ⟨rfl, rfl⟩ := Prod.mk.inj (Option.some.inj h)
    exact ⟨[], .absent, rfl⟩

/-- An exponent at the end of a text is read. -/
theorem readExponent?_text {exponentText : List Char} {exponent : Option (Bool × List Char)}
    (h : ExponentText exponent exponentText) :
    readExponent? exponentText = some (exponent, []) := by
  have hread {digits : List Char} (hrun : DigitRun digits) :
      readDigits? digits = some (digits, []) :=
    readDigits?_eq_some_iff.mpr ⟨hrun, (List.append_nil _).symm, EndsRun.nil⟩
  cases h with
  | absent => rfl
  | plain hmark hrun =>
    obtain ⟨c, more, rfl⟩ := List.exists_cons_of_ne_nil hrun.ne_nil
    have hdigit := hrun.isDigit c List.mem_cons_self
    rw [readExponent?, if_pos hmark, readExponentSign_of_isDigit hdigit]
    dsimp only
    rw [hread hrun]
    rfl
  | plus hmark hrun =>
    rw [readExponent?, if_pos hmark, readExponentSign]
    dsimp only
    rw [hread hrun]
    rfl
  | minus hmark hrun =>
    rw [readExponent?, if_pos hmark, readExponentSign]
    dsimp only
    rw [hread hrun]
    rfl

/-! What follows a part does not begin with a character that would belong to it. -/

theorem head_exponentText {exponent : Option (Bool × List Char)} {exponentText : List Char}
    (h : ExponentText exponent exponentText) : ∀ c ∈ exponentText.head?, c = 'e' ∨ c = 'E' := by
  intro c hc
  cases h with
  | absent => cases hc
  | plain hmark | plus hmark | minus hmark =>
    cases hc
    exact hmark

theorem head_fractionText_append {fraction : Option (List Char)}
    {exponent : Option (Bool × List Char)} {fractionText exponentText : List Char}
    (hfraction : FractionText fraction fractionText)
    (hexponent : ExponentText exponent exponentText) :
    ∀ c ∈ (fractionText ++ exponentText).head?, c = '.' ∨ c = 'e' ∨ c = 'E' := by
  intro c hc
  cases hfraction with
  | absent => exact Or.inr (head_exponentText hexponent c hc)
  | digits =>
    cases hc
    exact Or.inl rfl

theorem readSign_append_of_wholeText (negative : Bool) {whole : List Char} (h : WholeText whole)
    (rest : List Char) :
    readSign (signText negative ++ (whole ++ rest)) = (negative, whole ++ rest) := by
  cases negative with
  | true => rfl
  | false =>
    rw [signText, if_neg Bool.false_ne_true, List.nil_append, readSign.eq_def]
    split
    · rename_i htext
      cases h with
      | zero => simp at htext
      | run hrun =>
        obtain ⟨c, more, rfl⟩ := List.exists_cons_of_ne_nil hrun.ne_nil
        have hdigit := hrun.isDigit c List.mem_cons_self
        obtain ⟨rfl, -⟩ := List.cons.inj htext
        contradiction
    · rfl

theorem readSign_sound {text rest : List Char} {negative : Bool}
    (h : readSign text = (negative, rest)) : text = signText negative ++ rest := by
  rw [readSign.eq_def] at h
  split at h
  · obtain ⟨rfl, rfl⟩ := Prod.mk.inj h
    rfl
  · obtain ⟨rfl, rfl⟩ := Prod.mk.inj h
    rfl

/-- A text splits into the parts that it spells, and into no others. -/
theorem ofChars?_eq_some_iff {text : List Char} {literal : NumberLiteral} :
    ofChars? text = some literal ↔ literal.Spells text := by
  constructor
  · intro h
    rcases hsign : readSign text with ⟨negative, afterSign⟩
    simp only [ofChars?, hsign, Option.bind_eq_bind, Option.bind_eq_some_iff, Prod.exists] at h
    obtain ⟨whole, afterWhole, hwhole, fraction, afterFraction, hfraction, exponent, last,
      hexponent, hlast⟩ := h
    split at hlast
    · rename_i hempty
      obtain rfl := Option.some.inj hlast
      obtain rfl := List.isEmpty_iff.mp hempty
      obtain ⟨hwholeText, rfl⟩ := readWhole?_sound hwhole
      obtain ⟨fractionText, hfractionText, rfl⟩ := readFraction?_sound hfraction
      obtain ⟨exponentText, hexponentText, rfl⟩ := readExponent?_sound hexponent
      rw [readSign_sound hsign, List.append_nil]
      exact .parts negative hwholeText hfractionText hexponentText
    · cases hlast
  · rintro ⟨negative, hwhole, hfraction, hexponent⟩
    have hafterWhole := head_fractionText_append hfraction hexponent
    have hafterFraction := head_exponentText hexponent
    have hwholeRead := readWhole?_append hwhole fun c hc => by
      rcases hafterWhole c hc with rfl | rfl | rfl <;> rfl
    have hfractionRead := readFraction?_append hfraction
      (fun c hc => by rcases hafterFraction c hc with rfl | rfl <;> rfl)
      (fun hpoint => by simpa using hafterFraction '.' hpoint)
    simp only [ofChars?, readSign_append_of_wholeText negative hwhole, hwholeRead, hfractionRead,
      readExponent?_text hexponent, Option.bind_eq_bind, Option.bind_some, List.isEmpty_nil,
      if_true]

theorem ofString?_eq_some_iff {text : String} {literal : NumberLiteral} :
    ofString? text = some literal ↔ literal.Spells text.toList :=
  ofChars?_eq_some_iff

/-! The number written -/

theorem digitsValue_eq_ofDigitChars (digits : List Char) :
    digitsValue digits = Nat.ofDigitChars 10 digits 0 := by
  rw [Nat.ofDigitChars_eq_foldl, digitsValue]
  simp only [Nat.mul_comm]

theorem exponentValue_eq (literal : NumberLiteral) :
    literal.scale = exponentValue literal.exponent - (literal.fraction.getD []).length := by
  rw [scale]
  rcases literal.exponent with _ | ⟨_ | _, digits⟩
  · rfl
  · rw [exponentValue, ← digitsValue_eq_ofDigitChars]
  · rw [exponentValue, ← digitsValue_eq_ofDigitChars]

/-- The digits before and after the point, read as one number. -/
theorem coefficient_eq (literal : NumberLiteral) :
    (literal.coefficient : ℚ) =
      (Nat.ofDigitChars 10 literal.whole 0 + fractionValue literal.fraction) *
        10 ^ (literal.fraction.getD []).length := by
  rw [coefficient, digitsValue_eq_ofDigitChars]
  cases literal.fraction with
  | none => simp [fractionValue]
  | some digits =>
    have hpow : (10 : ℚ) ^ digits.length ≠ 0 := by positivity
    rw [Option.getD_some, Nat.ofDigitChars_append, Nat.ofDigitChars_eq_ofDigitChars_zero,
      fractionValue, add_mul, div_mul_cancel₀ _ hpow]
    push_cast
    ring

theorem magnitude_eq (literal : NumberLiteral) :
    literal.magnitude = literal.coefficient * 10 ^ literal.scale := by
  have hten : (10 : ℚ) ≠ 0 := by norm_num
  have hpow : (10 : ℚ) ^ (literal.fraction.getD []).length ≠ 0 := by positivity
  rw [magnitude, coefficient_eq, exponentValue_eq, zpow_sub₀ hten, zpow_natCast]
  field_simp

/-- What is written is the signed coefficient, moved by the scale. -/
theorem value_eq (literal : NumberLiteral) :
    literal.value = literal.signedCoefficient * 10 ^ literal.scale := by
  rw [value, signedCoefficient, magnitude_eq]
  cases literal.negative with
  | true => simp
  | false => simp

end NumberLiteral

end Exemplar
