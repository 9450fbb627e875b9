import Exemplar.Lexing
import Exemplar.Proofs.Grammar
import Mathlib.Data.List.TakeDrop
import Mathlib.Data.List.TakeWhile

/-!
# Number tokens are number literals

Numbers are described twice: the scanner steps through them character by character, and a literal
is split into its parts when its value is needed. Both accept the same texts, so every number token
has a value.
-/

namespace Exemplar

/-- Whether a token says something that has a value, if it is a number. -/
def Token.denotes : Token → Bool
  | .number literal => (Value.ofNumberText? literal).isSome
  | _ => true

namespace NumberLiteral

theorem readDigits?_cons (c : Char) (text : List Char) :
    readDigits? (c :: text) =
      if c.isDigit then some (c :: text.takeWhile Char.isDigit, text.dropWhile Char.isDigit)
      else none := by
  rw [readDigits?, List.span_eq_takeWhile_dropWhile, List.takeWhile_cons, List.dropWhile_cons]
  cases c.isDigit <;> rfl

/-- Whether a text is an exponent, or nothing. -/
def isExponentPart (text : List Char) : Bool :=
  (readExponent? text).any (·.2.isEmpty)

/-- Whether a text is what may follow the whole part of a number. -/
def isAfterWhole (text : List Char) : Bool :=
  (readFraction? text).any fun (_, text) => isExponentPart text

end NumberLiteral

namespace Token.NumberPart

open NumberLiteral

/-- Whether a literal that has come so far is completed by the text. -/
def accepts : NumberPart → List Char → Bool
  | part, [] => part.isComplete
  | part, c :: text =>
    match part.next? c with
    | some next => next.accepts text
    | none => false

theorem accepts_cons (part : NumberPart) (c : Char) (text : List Char) :
    part.accepts (c :: text) = (part.next? c).any (·.accepts text) := by
  rw [accepts]
  cases part.next? c <;> rfl

theorem accepts_exponent (text : List Char) : exponent.accepts text = text.all Char.isDigit := by
  induction text with
  | nil => rfl
  | cons c text ih =>
    rw [accepts_cons, next?, List.all_cons, ← ih]
    cases c.isDigit <;> rfl

theorem isEmpty_dropWhile (text : List Char) :
    (text.dropWhile Char.isDigit).isEmpty = text.all Char.isDigit := by
  rw [Bool.eq_iff_iff, List.isEmpty_iff, List.dropWhile_eq_nil_iff, List.all_eq_true]

theorem accepts_markSign (text : List Char) :
    markSign.accepts text = (readDigits? text).any (·.2.isEmpty) := by
  cases text with
  | nil => rfl
  | cons c text =>
    rw [accepts_cons, next?, readDigits?_cons]
    cases c.isDigit with
    | false => rfl
    | true => exact (accepts_exponent text).trans (isEmpty_dropWhile text).symm

theorem accepts_mark (text : List Char) :
    mark.accepts text = (readDigits? (readExponentSign text).2).any (·.2.isEmpty) := by
  cases text with
  | nil => rfl
  | cons c text =>
    rw [accepts_cons, next?]
    by_cases hplus : c = '+'
    · subst hplus
      exact accepts_markSign text
    by_cases hminus : c = '-'
    · subst hminus
      exact accepts_markSign text
    have hsign : readExponentSign (c :: text) = (false, c :: text) := by
      rw [readExponentSign]
      · rintro _ ⟨⟩
        contradiction
      · rintro _ ⟨⟩
        contradiction
    have hnosign : (if c = '+' ∨ c = '-' then some markSign else none) = none :=
      if_neg (by simp [hplus, hminus])
    rw [hsign, hnosign, readDigits?_cons]
    cases c.isDigit with
    | false => rfl
    | true => exact (accepts_exponent text).trans (isEmpty_dropWhile text).symm

theorem accepts_afterFraction (c : Char) (text : List Char) :
    (next?.afterFraction c).any (·.accepts text) = isExponentPart (c :: text) := by
  rw [next?.afterFraction, isExponentPart, readExponent?]
  by_cases hmark : c = 'e' ∨ c = 'E'
  · rw [if_pos hmark, if_pos hmark, Option.any_some, accepts_mark]
    dsimp only
    cases readDigits? (readExponentSign text).2 <;> rfl
  · rw [if_neg hmark, if_neg hmark]
    rfl

theorem accepts_fraction (text : List Char) :
    fraction.accepts text = isExponentPart (text.dropWhile Char.isDigit) := by
  induction text with
  | nil => rfl
  | cons c text ih =>
    rw [accepts_cons, next?, List.dropWhile_cons]
    cases c.isDigit with
    | true => exact ih
    | false => exact accepts_afterFraction c text

theorem accepts_point (text : List Char) :
    point.accepts text = (readDigits? text).any fun (_, text) => isExponentPart text := by
  cases text with
  | nil => rfl
  | cons c text =>
    rw [accepts_cons, next?, readDigits?_cons]
    cases c.isDigit with
    | true => exact accepts_fraction text
    | false => rfl

theorem accepts_afterWhole (c : Char) (text : List Char) :
    (next?.afterWhole c).any (·.accepts text) = isAfterWhole (c :: text) := by
  rw [next?.afterWhole, isAfterWhole]
  by_cases hpoint : c = '.'
  · subst hpoint
    rw [if_pos rfl, Option.any_some, accepts_point, readFraction?]
    cases readDigits? text <;> rfl
  · have hfraction : readFraction? (c :: text) = some (none, c :: text) := by
      rw [readFraction?]
      rintro _ ⟨⟩
      contradiction
    rw [if_neg hpoint, hfraction, accepts_afterFraction]
    rfl

theorem accepts_zero (text : List Char) : zero.accepts text = isAfterWhole text := by
  cases text with
  | nil => rfl
  | cons c text =>
    rw [accepts_cons, next?]
    exact accepts_afterWhole c text

theorem accepts_whole (text : List Char) :
    whole.accepts text = isAfterWhole (text.dropWhile Char.isDigit) := by
  induction text with
  | nil => rfl
  | cons c text ih =>
    rw [accepts_cons, next?, List.dropWhile_cons]
    cases c.isDigit with
    | true => exact ih
    | false => exact accepts_afterWhole c text

theorem accepts_sign (text : List Char) :
    sign.accepts text = (readWhole? text).any fun (_, text) => isAfterWhole text := by
  cases text with
  | nil => rfl
  | cons c text =>
    rw [accepts_cons, next?]
    by_cases hzero : c = '0'
    · subst hzero
      exact accepts_zero text
    · have hwhole : readWhole? (c :: text) = readDigits? (c :: text) := by
        rw [readWhole?]
        rintro _ ⟨⟩
        contradiction
      rw [if_neg hzero, hwhole, readDigits?_cons]
      cases c.isDigit with
      | true => exact accepts_whole text
      | false => rfl

end Token.NumberPart

open Token (NumberPart Partial Step literalText)

/-- A text is a number literal if the scanner accepts what follows its sign. -/
theorem NumberLiteral.isSome_ofChars? (text : List Char) :
    (ofChars? text).isSome = NumberPart.sign.accepts (readSign text).2 := by
  rw [NumberPart.accepts_sign, ofChars?]
  cases hwhole : readWhole? (readSign text).2 with
  | none => simp [hwhole]
  | some whole =>
    cases hfraction : readFraction? whole.2 with
    | none => simp [hwhole, hfraction, isAfterWhole]
    | some fraction =>
      cases hexponent : readExponent? fraction.2 with
      | none => simp [hwhole, hfraction, hexponent, isAfterWhole, isExponentPart]
      | some exponent =>
        cases hempty : exponent.2.isEmpty <;>
          simp_all [isAfterWhole, isExponentPart]

namespace Token

/-- The bytes of a number so far, last first, have led to a part of it: what completes the part
completes the number. -/
def Reaches (part : NumberPart) (seen : List UInt8) : Prop :=
  ∀ more : List Char,
    (NumberLiteral.ofChars? (seen.reverse.map Char.ofUInt8 ++ more)).isSome = part.accepts more

/-- What has been begun can only become a token that has a value. -/
def Partial.Denotes : Partial → List UInt8 → Prop
  | .keyword _ token, _ => token.denotes
  | .string _ _, _ => True
  | .number part, seen => Reaches part seen

theorem Reaches.denotes {part : NumberPart} {seen : List UInt8} (h : Reaches part seen)
    (hcomplete : part.isComplete) : (Token.number (literalText seen)).denotes := by
  have hnil := h []
  rw [List.append_nil, NumberPart.accepts, hcomplete] at hnil
  change (Value.ofNumberText? (literalText seen)).isSome
  rw [Value.ofNumberText?, Option.isSome_map, NumberLiteral.ofString?, literalText,
    String.toList_ofList, hnil]

theorem Reaches.next {part next : NumberPart} {seen : List UInt8} {b : UInt8}
    (h : Reaches part seen) (hnext : part.next? (Char.ofUInt8 b) = some next) :
    Reaches next (b :: seen) := by
  intro more
  have hmore := h (Char.ofUInt8 b :: more)
  rw [NumberPart.accepts_cons, hnext, Option.any_some] at hmore
  rw [← hmore, List.reverse_cons, List.map_append, List.append_assoc]
  rfl

/-- The same for the verdict on a byte. -/
def Step.Denotes (seen : List UInt8) : Step → Prop
  | .proceed next => next.Denotes seen
  | .finish token _ => token.denotes
  | .refuse _ _ _ => True

theorem denotes_closeString (text seen : List UInt8) : (closeString text).Denotes seen := by
  rw [closeString]
  split
  · rfl
  · trivial

theorem denotes_stringStep (text : List UInt8) (escape : Escape) (offset : Nat) (b : UInt8)
    (seen : List UInt8) : (stringStep text escape offset b).Denotes seen := by
  cases escape with
  | none =>
    rw [stringStep]
    split
    · exact denotes_closeString text seen
    · split
      · trivial
      · split <;> trivial
  | opened start =>
    rw [stringStep]
    split
    · trivial
    · split <;> trivial
  | codeUnit start high digits value =>
    rw [stringStep]
    split
    · trivial
    · split
      · trivial
      · split
        · dsimp only
          split <;> trivial
        · dsimp only
          split
          · trivial
          · split <;> trivial
  | pairBackslash start high =>
    rw [stringStep]
    split <;> trivial
  | pairLetter start high =>
    rw [stringStep]
    split <;> trivial

theorem Partial.Denotes.step {begun : Partial} {seen : List UInt8} (h : begun.Denotes seen)
    (b : UInt8) : (begun.step seen b).Denotes (b :: seen) := by
  cases begun with
  | keyword missing token =>
    rw [Partial.step, keywordStep.eq_def]
    split
    · exact h
    · split
      · exact h
      · trivial
    · split
      · exact h
      · trivial
  | string text escape => exact denotes_stringStep text escape _ b _
  | number part =>
    cases hnext : part.next? (Char.ofUInt8 b) with
    | some next =>
      simp only [Partial.step, numberStep, hnext]
      exact Reaches.next h hnext
    | none =>
      simp only [Partial.step, numberStep, hnext]
      split
      · trivial
      · split
        · rename_i hcomplete
          exact Reaches.denotes h hcomplete
        · trivial

theorem Partial.Denotes.atEnd {begun : Partial} {seen : List UInt8} {token : Token}
    (h : begun.Denotes seen) (hend : begun.atEnd seen = .ok token) : token.denotes := by
  cases begun with
  | keyword missing token => contradiction
  | string text escape => cases escape <;> contradiction
  | number part =>
    rw [Partial.atEnd] at hend
    split at hend
    · rename_i hcomplete
      obtain rfl := Except.ok.inj hend
      exact Reaches.denotes h hcomplete
    · contradiction

theorem denotes_of_scanOn {ending : Ending} {begun : Partial} {seen bytes : List UInt8}
    {token : Token} (h : begun.Denotes seen)
    (hscan : (scanOn ending begun seen bytes).outcome = .ok token) : token.denotes := by
  induction bytes generalizing begun seen with
  | nil =>
    cases ending with
    | finished => exact h.atEnd hscan
    | broken reason => contradiction
  | cons b bytes ih =>
    have hstep := h.step b
    rw [scanOn] at hscan
    cases hverdict : begun.step seen b with
    | proceed next =>
      rw [hverdict] at hstep hscan
      exact ih hstep hscan
    | finish found taken =>
      rw [hverdict] at hstep hscan
      obtain rfl := Except.ok.inj hscan
      exact hstep
    | refuse defect offset taken =>
      rw [hverdict] at hscan
      contradiction

theorem denotes_firstStep (b : UInt8) : (firstStep b).Denotes [b] := by
  have hreaches : ∀ part more,
      (NumberLiteral.ofChars? (Char.ofUInt8 b :: more)).isSome = NumberPart.accepts part more →
      (NumberLiteral.ofChars? ([b].reverse.map Char.ofUInt8 ++ more)).isSome =
        part.accepts more := fun _ _ h => h
  rw [firstStep.eq_def]
  split
  case h_8 hminus =>
    intro more
    refine hreaches _ more ?_
    rw [hminus, NumberLiteral.isSome_ofChars?]
    rfl
  case h_12 =>
    cases hnext : NumberPart.sign.next? (Char.ofUInt8 b) with
    | none => trivial
    | some part =>
      intro more
      refine hreaches _ more ?_
      have hsign : (NumberLiteral.readSign (Char.ofUInt8 b :: more)).2 =
          Char.ofUInt8 b :: more := by
        rw [NumberLiteral.readSign]
        intro _ heq
        have hminus := (List.cons.inj heq).1
        contradiction
      rw [NumberLiteral.isSome_ofChars?, hsign, NumberPart.accepts_cons, hnext, Option.any_some]
  all_goals first | rfl | trivial

theorem denotes_of_scan {ending : Ending} {b : UInt8} {bytes : List UInt8} {token : Token}
    (h : (scan ending b bytes).outcome = .ok token) : token.denotes := by
  have hfirst := denotes_firstStep b
  rw [scan] at h
  cases hverdict : firstStep b with
  | proceed next =>
    rw [hverdict] at hfirst h
    exact denotes_of_scanOn hfirst h
  | finish found taken =>
    rw [hverdict] at hfirst h
    obtain rfl := Except.ok.inj h
    exact hfirst
  | refuse defect offset taken =>
    rw [hverdict] at h
    contradiction

end Token

/-- Every number token of an input has a value. -/
theorem Cursor.denotes_of_lex {c after : Cursor} {lexeme : Lexeme}
    (h : c.lex = (.token lexeme, after)) : lexeme.token.denotes := by
  rw [lex, lexHere] at h
  split at h
  · split at h <;> cases h
  · dsimp only at h
    split at h
    · rename_i hscan
      obtain ⟨hlexeme, -⟩ := Prod.mk.inj h
      obtain rfl := Lexed.token.inj hlexeme
      exact Token.denotes_of_scan hscan
    · cases h

end Exemplar
