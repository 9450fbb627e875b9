import Mathlib
import Exemplar.Proofs.Continuation
import Exemplar.Proofs.StringGrammar

/-!
# String tokens are strings

From a quote on, the scanner reads a string and nothing else, and its token holds the text of that
string. Step by step: what has been taken is a body up to an escape sequence that is still open, and
every body is taken from one end to the other.
-/

namespace Exemplar

namespace Token

/-! Digits -/

theorem hexValue?_ofUInt8 {b : UInt8} {digit : ℕ} :
    hexValue? (Char.ofUInt8 b) = some digit ↔ HexDigit b digit := by
  constructor
  · intro h
    have hall : ∀ n : Fin 256, ∀ digit ∈ hexValue? (Char.ofUInt8 (UInt8.ofFin n)),
        digit < 16 ∧ (UInt8.ofFin n = (Nat.digitChar digit).toUInt8 ∨
          UInt8.ofFin n = (Nat.digitChar digit).toUpper.toUInt8) := by decide +kernel
    exact hall b.toFin digit h
  · rintro ⟨hlt, h⟩
    have hall : ∀ digit : Fin 16,
        hexValue? (Char.ofUInt8 (Nat.digitChar digit).toUInt8) = some digit.val ∧
          hexValue? (Char.ofUInt8 (Nat.digitChar digit).toUpper.toUInt8) = some digit.val := by
      decide +kernel
    obtain ⟨hlower, hupper⟩ := hall ⟨digit, hlt⟩
    rcases h with rfl | rfl
    · exact hlower
    · exact hupper

end Token

theorem HexDigits.lt {digits : List UInt8} {value : ℕ} (h : HexDigits digits value) :
    value < 16 ^ digits.length := by
  induction h with
  | nil => decide
  | snoc _ hdigit ih =>
    obtain ⟨hlt, -⟩ := hdigit
    rw [List.length_append, List.length_singleton, pow_succ]
    omega

theorem UnitEscape.lt {bytes : List UInt8} {value : ℕ} (h : UnitEscape bytes value) :
    value < 0x10000 := by
  cases h with
  | digits hdigits hlength =>
    have hlt := hdigits.lt
    rw [hlength] at hlt
    exact hlt

namespace Token

theorem isHighSurrogate_iff {n : ℕ} : isHighSurrogate n ↔ 0xD800 ≤ n ∧ n < 0xDC00 := by
  rw [isHighSurrogate, Bool.and_eq_true, decide_eq_true_eq, decide_eq_true_eq]

theorem isLowSurrogate_iff {n : ℕ} : isLowSurrogate n ↔ 0xDC00 ≤ n ∧ n < 0xE000 := by
  rw [isLowSurrogate, Bool.and_eq_true, decide_eq_true_eq, decide_eq_true_eq]

theorem toNat_ofNat {n : ℕ} (h : n < 0xD800 ∨ 0xDFFF < n ∧ n < 0x110000) :
    (Char.ofNat n).toNat = n := by
  rw [Char.ofNat, dif_pos h]
  rfl

/-- A letter that may follow a backslash is a single byte, and not the letter of a code unit. -/
theorem shortEscape?_of_mem : ∀ escape ∈ shortEscapes,
    escape.1.toNat < 256 ∧ escape.1 ≠ 'u' ∧ shortEscape? escape.1 = some escape.2 := by decide

theorem mem_shortEscapes {letter c : Char} (h : shortEscape? letter = some c) :
    (letter, c) ∈ shortEscapes := by
  rw [shortEscape?.eq_def] at h
  split at h <;> cases h <;> decide

/-! What has been taken -/

/-- The bytes of an escape sequence that is still open. -/
inductive Escape.Open : Escape → List UInt8 → Prop
  | none : Open .none []
  | opened {start : ℕ} : Open (.opened start) ['\\'.toUInt8]
  | unit {start value : ℕ} {digits : List UInt8} : HexDigits digits value → digits.length < 4 →
    Open (.codeUnit start .none digits.length value) ('\\'.toUInt8 :: 'u'.toUInt8 :: digits)
  | high {start high : ℕ} {bytes : List UInt8} : UnitEscape bytes high → isHighSurrogate high →
    Open (.pairBackslash start high) bytes
  | letter {start high : ℕ} {bytes : List UInt8} : UnitEscape bytes high → isHighSurrogate high →
    Open (.pairLetter start high) (bytes ++ ['\\'.toUInt8])
  | low {start high value : ℕ} {bytes digits : List UInt8} :
    UnitEscape bytes high → isHighSurrogate high → HexDigits digits value → digits.length < 4 →
    Open (.codeUnit start (some high) digits.length value)
      (bytes ++ '\\'.toUInt8 :: 'u'.toUInt8 :: digits)

/-- The bytes after the opening quote of a string that has come so far. -/
inductive Begun : List UInt8 → Escape → List UInt8 → Prop
  | body {text body bytes : List UInt8} {escape : Escape} : Collected body text.reverse →
    escape.Open bytes → Begun text escape (body ++ bytes)

/-- The verdict on a byte after these bytes. -/
def Step.ReadsString (body : List UInt8) (b : UInt8) : Step → Prop
  | .proceed (.string text escape) => Begun text escape (body ++ [b])
  | .proceed _ => False
  | .finish token taken =>
    b = '"'.toUInt8 ∧ taken ∧ ∃ s : String, token = .string s ∧ StringBody body s.toList
  | .refuse _ _ _ => True

theorem Begun.escaped {text body bytes : List UInt8} {c : Char} (h : Collected body text.reverse)
    (hescaped : Escaped bytes c) : Begun (pushChar text c) .none (body ++ bytes) := by
  have hcollected := h.append (.escaped hescaped .nil)
  rw [List.append_nil, List.append_nil] at hcollected
  rw [← List.append_nil (body ++ bytes)]
  refine .body ?_ .none
  rw [pushChar, List.reverse_append, List.reverse_reverse]
  exact hcollected

theorem readsString_closeString {text body : List UInt8} (h : Collected body text.reverse) :
    (closeString text).ReadsString body '"'.toUInt8 := by
  rw [closeString]
  split
  · rename_i s hs
    rw [Utf8.fromUTF8?_eq_some_iff.mp hs] at h
    exact ⟨rfl, rfl, s, rfl, stringBody_iff.mpr h⟩
  · trivial

theorem ofUInt8_eq_quote {b : UInt8} : Char.ofUInt8 b = '"' ↔ b = '"'.toUInt8 :=
  Utf8.ofUInt8_eq_iff (by decide)

theorem ofUInt8_eq_backslash {b : UInt8} : Char.ofUInt8 b = '\\' ↔ b = '\\'.toUInt8 :=
  Utf8.ofUInt8_eq_iff (by decide)

theorem ofUInt8_eq_letter {b : UInt8} : Char.ofUInt8 b = 'u' ↔ b = 'u'.toUInt8 :=
  Utf8.ofUInt8_eq_iff (by decide)

section Step

variable {text body : List UInt8} (h : Collected body text.reverse) (offset : ℕ) (b : UInt8)
include h

/-- A byte outside of escape sequences ends the string, begins one, or stands for itself. -/
theorem readsString_none : (stringStep text .none offset b).ReadsString body b := by
  rw [stringStep]
  split
  · rename_i hb
    rw [ofUInt8_eq_quote.mp hb]
    exact readsString_closeString h
  rename_i hquote
  split
  · rename_i hb
    rw [ofUInt8_eq_backslash.mp hb]
    exact .body h .opened
  rename_i hbackslash
  split
  · trivial
  · rename_i hcontrol
    have hraw : IsRaw b := ⟨Nat.le_of_not_lt hcontrol, mt ofUInt8_eq_quote.mpr hquote,
      mt ofUInt8_eq_backslash.mpr hbackslash⟩
    have hmore := h.append (.raw hraw .nil)
    rw [← List.reverse_cons] at hmore
    rw [Step.ReadsString, ← List.append_nil (body ++ [b])]
    exact .body hmore .none

theorem readsString_opened (start : ℕ) :
    (stringStep text (.opened start) offset b).ReadsString (body ++ ['\\'.toUInt8]) b := by
  rw [stringStep]
  split
  · rename_i hb
    rw [ofUInt8_eq_letter.mp hb, Step.ReadsString, List.append_assoc]
    exact .body h (.unit .nil (by decide))
  · split
    · rename_i c hc
      have hbyte : (Char.ofUInt8 b).toNat < 256 := by
        rw [Utf8.toNat_ofUInt8]
        exact b.toNat_lt
      have hshort := Escaped.short (mem_shortEscapes hc)
      rw [← (Utf8.ofUInt8_eq_iff hbyte).mp rfl] at hshort
      rw [Step.ReadsString, List.append_assoc]
      exact .escaped h hshort
    · trivial

/-- One more digit. The fourth one makes a character, a high surrogate, or an error. -/
theorem readsString_unit (start : ℕ) {digits : List UInt8} {value : ℕ}
    (hdigits : HexDigits digits value) (hlength : digits.length < 4) :
    (stringStep text (.codeUnit start none digits.length value) offset b).ReadsString
      (body ++ '\\'.toUInt8 :: 'u'.toUInt8 :: digits) b := by
  rw [stringStep]
  split
  · trivial
  rename_i digit hdigit
  have hmore := hdigits.snoc (hexValue?_ofUInt8.mp hdigit)
  have hcount : (digits ++ [b]).length = digits.length + 1 := List.length_append
  dsimp only
  rw [← hcount]
  split
  · rw [Step.ReadsString, List.append_assoc]
    exact .body h (.unit hmore (by omega))
  · have hunit := UnitEscape.digits hmore (by omega)
    have hlt := hunit.lt
    split
    · rename_i hhigh
      rw [Step.ReadsString, List.append_assoc]
      exact .body h (.high hunit hhigh)
    · split
      · trivial
      · rename_i hnotHigh hnotLow
        rw [isHighSurrogate_iff] at hnotHigh
        rw [isLowSurrogate_iff] at hnotLow
        have hcode : (Char.ofNat (value * 16 + digit)).toNat = value * 16 + digit :=
          toNat_ofNat (by omega)
        rw [← hcode] at hunit
        rw [Step.ReadsString, List.append_assoc]
        exact .escaped h (.unit hunit)

/-- One more digit after a high surrogate. The fourth one makes a character or an error. -/
theorem readsString_low (start : ℕ) {high value : ℕ} {bytes digits : List UInt8}
    (hhigh : UnitEscape bytes high) (hsurrogate : isHighSurrogate high)
    (hdigits : HexDigits digits value) (hlength : digits.length < 4) :
    (stringStep text (.codeUnit start (some high) digits.length value) offset b).ReadsString
      (body ++ (bytes ++ '\\'.toUInt8 :: 'u'.toUInt8 :: digits)) b := by
  rw [stringStep]
  split
  · trivial
  rename_i digit hdigit
  have hmore := hdigits.snoc (hexValue?_ofUInt8.mp hdigit)
  have hcount : (digits ++ [b]).length = digits.length + 1 := List.length_append
  dsimp only
  rw [← hcount]
  split
  · rw [Step.ReadsString, List.append_assoc, List.append_assoc]
    exact .body h (.low hhigh hsurrogate hmore (by omega))
  · have hunit := UnitEscape.digits hmore (by omega)
    split
    · rename_i hlow
      obtain ⟨hge, hlt⟩ := isHighSurrogate_iff.mp hsurrogate
      obtain ⟨hge', hlt'⟩ := isLowSurrogate_iff.mp hlow
      rw [Step.ReadsString, List.append_assoc, List.append_assoc]
      refine .escaped h (.pair hhigh hunit hge hlt hge' hlt' ?_)
      rw [pairedChar, toNat_ofNat (by omega)]
    · trivial

end Step

/-- One more byte of a string that has been begun. -/
theorem Begun.step {text body : List UInt8} {escape : Escape} (h : Begun text escape body)
    (offset : ℕ) (b : UInt8) : (stringStep text escape offset b).ReadsString body b := by
  obtain ⟨hcollected, hopen⟩ := h
  cases hopen with
  | none =>
    rw [List.append_nil]
    exact readsString_none hcollected offset b
  | opened => exact readsString_opened hcollected offset b _
  | unit hdigits hlength => exact readsString_unit hcollected offset b _ hdigits hlength
  | high hhigh hsurrogate =>
    rw [stringStep]
    split
    · rename_i hb
      rw [ofUInt8_eq_backslash.mp hb, Step.ReadsString, List.append_assoc]
      exact .body hcollected (.letter hhigh hsurrogate)
    · trivial
  | letter hhigh hsurrogate =>
    rw [stringStep]
    split
    · rename_i hb
      rw [ofUInt8_eq_letter.mp hb, Step.ReadsString, List.append_assoc, List.append_assoc]
      exact .body hcollected (.low hhigh hsurrogate .nil (by decide))
    · trivial
  | low hhigh hsurrogate hdigits hlength =>
    exact readsString_low hcollected offset b _ hhigh hsurrogate hdigits hlength

/-- A scan that is inside a string gives a token only at the end of a body. -/
theorem string_of_scanOn {ending : Ending} {text body seen bytes : List UInt8} {escape : Escape}
    {token : Token} {taken : ℕ} (h : Begun text escape body)
    (hscan : scanOn ending (.string text escape) seen bytes = ⟨.ok token, taken⟩) :
    ∃ used rest, ∃ s : String, bytes = used ++ '"'.toUInt8 :: rest ∧
      StringBody (body ++ used) s.toList ∧ token = .string s ∧
      taken = seen.length + used.length + 1 := by
  induction bytes generalizing text body seen escape with
  | nil =>
    cases ending with
    | finished => cases escape <;> cases hscan
    | broken => cases hscan
  | cons b bytes ih =>
    have hstep := h.step seen.length b
    rw [scanOn, Partial.step] at hscan
    cases hverdict : stringStep text escape seen.length b with
    | proceed next =>
      rw [hverdict] at hstep hscan
      cases next with
      | keyword | number => exact hstep.elim
      | string text escape =>
        obtain ⟨used, rest, s, rfl, hbody, rfl, rfl⟩ := ih hstep hscan
        rw [List.append_assoc] at hbody
        refine ⟨b :: used, rest, s, rfl, hbody, rfl, ?_⟩
        rw [List.length_cons, List.length_cons]
        omega
    | finish found last =>
      rw [hverdict] at hstep hscan
      obtain ⟨rfl, rfl, s, rfl, hbody⟩ := hstep
      cases hscan
      exact ⟨[], bytes, s, rfl, by rwa [List.append_nil], rfl, rfl⟩
    | refuse =>
      rw [hverdict] at hscan
      cases hscan

/-! Bodies are taken -/

section Taken

variable {ending : Ending} {text seen more : List UInt8}

/-- Digits before the last one are taken as they come. -/
theorem scanOn_digits {start value : ℕ} {high : Option ℕ} {digits : List UInt8}
    (h : HexDigits digits value) (hlength : digits.length < 4) (more : List UInt8) :
    scanOn ending (.string text (.codeUnit start high 0 0)) seen (digits ++ more) =
      scanOn ending (.string text (.codeUnit start high digits.length value))
        (digits.reverse ++ seen) more := by
  induction h generalizing more with
  | nil => rfl
  | @snoc digits value digit b hdigits hdigit ih =>
    rw [List.length_append, List.length_singleton] at hlength
    rw [List.append_assoc, List.singleton_append, ih (by omega), List.reverse_append,
      List.length_append, List.length_singleton]
    refine scanOn_of_proceed ?_ more
    rw [Partial.step, stringStep, hexValue?_ofUInt8.mpr hdigit]
    dsimp only
    rw [if_pos (by omega)]

/-- Four digits are taken if the last one does not make a code unit that is refused. -/
theorem scanOn_fourDigits {start value : ℕ} {high : Option ℕ} {digits : List UInt8} {next : Partial}
    (h : HexDigits digits value) (hlength : digits.length = 4)
    (hnext : ∀ (offset value' digit : ℕ) (b : UInt8), HexDigit b digit →
      value' * 16 + digit = value →
      stringStep text (.codeUnit start high 3 value') offset b = .proceed next) :
    scanOn ending (.string text (.codeUnit start high 0 0)) seen (digits ++ more) =
      scanOn ending next (digits.reverse ++ seen) more := by
  cases h with
  | nil => contradiction
  | @snoc digits value digit b hdigits hdigit =>
    rw [List.length_append, List.length_singleton] at hlength
    have hthree : digits.length = 3 := by omega
    rw [List.append_assoc, List.singleton_append, scanOn_digits hdigits (by omega),
      List.reverse_append, hthree]
    have hstep (seen : List UInt8) :
        (Partial.string text (.codeUnit start high 3 value)).step seen b = .proceed next :=
      hnext seen.length value digit b hdigit rfl
    exact scanOn_of_proceed (hstep _) more

/-- The same for four digits after a backslash and a letter. -/
theorem scanOn_unitEscape {value : ℕ} {bytes : List UInt8} {next : Partial}
    (h : UnitEscape bytes value)
    (hnext : ∀ (offset value' digit : ℕ) (b : UInt8), HexDigit b digit →
      value' * 16 + digit = value →
      stringStep text (.codeUnit seen.length none 3 value') offset b = .proceed next) :
    scanOn ending (.string text .none) seen (bytes ++ more) =
      scanOn ending next (bytes.reverse ++ seen) more := by
  cases h with
  | @digits digits _ hdigits hlength =>
    have hbackslash : (Partial.string text .none).step seen '\\'.toUInt8 =
        .proceed (.string text (.opened seen.length)) := rfl
    have hletter : (Partial.string text (.opened seen.length)).step ('\\'.toUInt8 :: seen)
        'u'.toUInt8 = .proceed (.string text (.codeUnit seen.length none 0 0)) := rfl
    rw [List.cons_append, List.cons_append, scanOn_of_proceed hbackslash,
      scanOn_of_proceed hletter, scanOn_fourDigits hdigits hlength hnext, List.reverse_cons,
      List.reverse_cons, List.append_assoc, List.append_assoc]
    rfl

theorem scanOn_short {letter c : Char} (h : (letter, c) ∈ shortEscapes) :
    scanOn ending (.string text .none) seen (['\\'.toUInt8, letter.toUInt8] ++ more) =
      scanOn ending (.string (pushChar text c) .none)
        (['\\'.toUInt8, letter.toUInt8].reverse ++ seen) more := by
  obtain ⟨hbyte, hne, hdenotes⟩ := shortEscape?_of_mem _ h
  have hbackslash : (Partial.string text .none).step seen '\\'.toUInt8 =
      .proceed (.string text (.opened seen.length)) := rfl
  have hletter : (Partial.string text (.opened seen.length)).step ('\\'.toUInt8 :: seen)
      letter.toUInt8 = .proceed (.string (pushChar text c) .none) := by
    rw [Partial.step, stringStep, Utf8.ofUInt8_toUInt8 hbyte, if_neg hne, hdenotes]
  rw [List.cons_append, List.singleton_append, scanOn_of_proceed hbackslash,
    scanOn_of_proceed hletter]
  rfl

/-- A code unit that is a character is taken as that character. -/
theorem scanOn_char {c : Char} {bytes : List UInt8} (h : UnitEscape bytes c.toNat) :
    scanOn ending (.string text .none) seen (bytes ++ more) =
      scanOn ending (.string (pushChar text c) .none) (bytes.reverse ++ seen) more := by
  have hvalid : c.toNat < 0xD800 ∨ 0xDFFF < c.toNat ∧ c.toNat < 0x110000 := c.valid
  have hhigh : ¬ isHighSurrogate c.toNat := by
    rw [isHighSurrogate_iff]
    omega
  have hlow : ¬ isLowSurrogate c.toNat := by
    rw [isLowSurrogate_iff]
    omega
  refine scanOn_unitEscape h fun offset value' digit b hdigit hvalue => ?_
  rw [stringStep, hexValue?_ofUInt8.mpr hdigit]
  dsimp only
  rw [hvalue, if_neg (by decide), if_neg hhigh, if_neg hlow, Char.ofNat_toNat]

theorem scanOn_high {high : ℕ} {bytes : List UInt8} (h : UnitEscape bytes high)
    (hsurrogate : isHighSurrogate high) :
    scanOn ending (.string text .none) seen (bytes ++ more) =
      scanOn ending (.string text (.pairBackslash seen.length high)) (bytes.reverse ++ seen)
        more := by
  refine scanOn_unitEscape h fun offset value' digit b hdigit hvalue => ?_
  rw [stringStep, hexValue?_ofUInt8.mpr hdigit]
  dsimp only
  rw [hvalue, if_neg (by decide), if_pos hsurrogate]

/-- After a high surrogate a low one is taken, and both as one character. -/
theorem scanOn_low {start high low : ℕ} {bytes : List UInt8} (h : UnitEscape bytes low)
    (hsurrogate : isLowSurrogate low) :
    scanOn ending (.string text (.pairBackslash start high)) seen (bytes ++ more) =
      scanOn ending (.string (pushChar text (pairedChar high low)) .none) (bytes.reverse ++ seen)
        more := by
  cases h with
  | @digits digits _ hdigits hlength =>
    have hbackslash : (Partial.string text (.pairBackslash start high)).step seen '\\'.toUInt8 =
        .proceed (.string text (.pairLetter start high)) := rfl
    have hletter : (Partial.string text (.pairLetter start high)).step ('\\'.toUInt8 :: seen)
        'u'.toUInt8 = .proceed (.string text (.codeUnit start (some high) 0 0)) := rfl
    have hlast (offset value' digit : ℕ) (b : UInt8) (hdigit : HexDigit b digit)
        (hvalue : value' * 16 + digit = low) :
        stringStep text (.codeUnit start (some high) 3 value') offset b =
          .proceed (.string (pushChar text (pairedChar high low)) .none) := by
      rw [stringStep, hexValue?_ofUInt8.mpr hdigit]
      dsimp only
      rw [hvalue, if_neg (by decide), if_pos hsurrogate]
    rw [List.cons_append, List.cons_append, scanOn_of_proceed hbackslash,
      scanOn_of_proceed hletter, scanOn_fourDigits hdigits hlength hlast, List.reverse_cons,
      List.reverse_cons, List.append_assoc, List.append_assoc]
    rfl

/-- An escape sequence is taken as the character that it stands for. -/
theorem scanOn_escaped {c : Char} {bytes : List UInt8} (h : Escaped bytes c) :
    scanOn ending (.string text .none) seen (bytes ++ more) =
      scanOn ending (.string (pushChar text c) .none) (bytes.reverse ++ seen) more := by
  cases h with
  | short hshort => exact scanOn_short hshort
  | unit hunit => exact scanOn_char hunit
  | pair hhigh hlow hge hlt hge' hlt' hcode =>
    rw [List.append_assoc, scanOn_high hhigh (isHighSurrogate_iff.mpr ⟨hge, hlt⟩),
      scanOn_low hlow (isLowSurrogate_iff.mpr ⟨hge', hlt'⟩), pairedChar, ← hcode,
      Char.ofNat_toNat, List.reverse_append, List.append_assoc]

theorem step_raw {b : UInt8} (h : IsRaw b) (seen : List UInt8) :
    (Partial.string text .none).step seen b = .proceed (.string (b :: text) .none) := by
  obtain ⟨hlow, hquote, hbackslash⟩ := h
  have hcontrol : ¬ b < 0x20 := Nat.not_lt.mpr hlow
  rw [Partial.step, stringStep, if_neg (mt ofUInt8_eq_quote.mp hquote),
    if_neg (mt ofUInt8_eq_backslash.mp hbackslash), if_neg hcontrol]

/-- Bodies are collected. -/
theorem scanOn_collected {body collected : List UInt8} (h : Collected body collected)
    (more : List UInt8) :
    scanOn ending (.string text .none) seen (body ++ more) =
      scanOn ending (.string (collected.reverse ++ text) .none) (body.reverse ++ seen) more := by
  induction h generalizing text seen with
  | nil => rfl
  | raw hraw _ ih =>
    rw [List.cons_append, scanOn_of_proceed (step_raw hraw seen), ih]
    simp
  | escaped hescaped _ ih =>
    rw [List.append_assoc, scanOn_escaped hescaped, ih, pushChar]
    simp

/-- A string is taken from its quote to its quote. -/
theorem scan_of_stringBody {body : List UInt8} {s : String} (h : StringBody body s.toList) :
    scan ending '"'.toUInt8 (body ++ '"'.toUInt8 :: more) =
      ⟨.ok (.string s), body.length + 2⟩ := by
  have hquote (seen : List UInt8) : (Partial.string
      (s.toList.flatMap String.utf8EncodeChar).reverse .none).step seen '"'.toUInt8 =
        .finish (.string s) true := by
    have hclose : (Partial.string
        (s.toList.flatMap String.utf8EncodeChar).reverse .none).step seen '"'.toUInt8 =
          closeString (s.toList.flatMap String.utf8EncodeChar).reverse := rfl
    rw [hclose, closeString, List.reverse_reverse, Utf8.fromUTF8?_eq_some_iff.mpr rfl]
  have hfirst : firstStep '"'.toUInt8 = .proceed (.string [] .none) := rfl
  rw [scan, hfirst]
  dsimp only
  rw [scanOn_collected (stringBody_iff.mp h), List.append_nil, scanOn, hquote]
  simp

end Taken

end Token

namespace Cursor

theorem skip_length {c : Cursor} {bytes more : List UInt8} (h : c.rest = bytes ++ more) :
    c.skip bytes.length = ⟨more, c.position.advance bytes, c.ending⟩ := by
  rw [skip, h, List.drop_left, List.take_left]

/-- From a quote on, a string token is read exactly from the bytes of a string, and its text is the
text of that string. -/
theorem lex_string_iff {c : Cursor} {bytes more : List UInt8} (hrest : c.rest = bytes ++ more)
    (hquote : c.rest.head? = some '"'.toUInt8) (s : String) :
    c.lex = (.token ⟨.string s, c.position⟩, ⟨more, c.position.advance bytes, c.ending⟩) ↔
      StringLiteral bytes s := by
  obtain ⟨tail, hcons⟩ := List.head?_eq_some_iff.mp hquote
  rw [lex_of_rest hcons rfl]
  constructor
  · intro h
    obtain ⟨hlexed, hskip⟩ := Prod.mk.inj h
    rcases hscan : Token.scan c.ending '"'.toUInt8 tail with ⟨fault | token, taken⟩
    · rw [hscan] at hlexed
      cases hlexed
    · rw [hscan] at hlexed hskip
      cases hlexed
      have hbegun : Token.Begun [] .none ([] ++ []) := .body .nil .none
      obtain ⟨body, rest, s', rfl, hbody, hs, rfl⟩ := Token.string_of_scanOn hbegun hscan
      obtain rfl := Token.string.inj hs
      -- what is skipped is the string that was scanned
      have hsplit : c.rest = ('"'.toUInt8 :: (body ++ ['"'.toUInt8])) ++ rest := by
        rw [hcons]
        simp
      have hlength : ['"'.toUInt8].length + body.length + 1 =
          ('"'.toUInt8 :: (body ++ ['"'.toUInt8])).length := by
        simp
        omega
      rw [hlength, skip_length hsplit] at hskip
      obtain ⟨rfl, -, -⟩ := Cursor.mk.inj hskip
      rw [List.append_cancel_right (hrest.symm.trans hsplit)]
      exact .quoted hbody
  · rintro @⟨body, _, hbody⟩
    have htail : tail = body ++ '"'.toUInt8 :: more := by
      have hall := hcons.symm.trans hrest
      rw [List.cons_append, List.append_assoc, List.singleton_append] at hall
      exact (List.cons.inj hall).2
    have hlength : body.length + 2 = ('"'.toUInt8 :: (body ++ ['"'.toUInt8])).length := by simp
    rw [htail, Token.scan_of_stringBody hbody, hlength, skip_length hrest]
    rfl

/-- `"é\n\uD83d\uDE00"` before a comma is read as the string of three characters that it is. -/
theorem lex_string_iff_of_escapes :
    (Cursor.start "\"é\\n\\uD83d\\uDE00\",".toUTF8.toList .finished).rest.head? =
        some '"'.toUInt8 ∧
      (Cursor.start "\"é\\n\\uD83d\\uDE00\",".toUTF8.toList .finished).lex =
        (.token ⟨.string "é\n😀", .start⟩, ⟨[44], ⟨18, 1, 19⟩, .finished⟩) ∧
      StringLiteral "\"é\\n\\uD83d\\uDE00\"".toUTF8.toList "é\n😀" := by
  have hrest : (Cursor.start "\"é\\n\\uD83d\\uDE00\",".toUTF8.toList .finished).rest =
      "\"é\\n\\uD83d\\uDE00\"".toUTF8.toList ++ [44] := by cbv
  have hquote : (Cursor.start "\"é\\n\\uD83d\\uDE00\",".toUTF8.toList .finished).rest.head? =
      some '"'.toUInt8 := by cbv
  have hlex : (Cursor.start "\"é\\n\\uD83d\\uDE00\",".toUTF8.toList .finished).lex =
      (.token ⟨.string "é\n😀", .start⟩, ⟨[44], ⟨18, 1, 19⟩, .finished⟩) := by cbv
  refine ⟨hquote, hlex, (lex_string_iff hrest hquote _).mp ?_⟩
  rw [hlex]
  cbv

end Cursor

end Exemplar
