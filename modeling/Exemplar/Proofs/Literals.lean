import Exemplar.Text.Quoted
import Exemplar.Token.Scan

/-!
# Quoted text can be read back

A reader for the string literals of the generated code, after the rules of that language: letters
after a backslash, code points by two digits or in braces, and no carriage return by itself. Only a
line that is continued on the next one is refused, since quoted text stays on one line. Whatever
text is quoted, the reader gives it back.
-/

namespace Exemplar.Text

open Token (hexValue?)

/-- What has been read of an escaped character. -/
inductive LiteralState where
  | plain
  /-- The backslash. -/
  | backslash
  /-- The letter before two digits, and the first of them if it has been read. -/
  | byte (high : Option Nat)
  /-- The letter before a brace. -/
  | letter
  /-- The brace and some digits, with the number they make. -/
  | braces (digits value : Nat)

/-- The character that one character after a backslash stands for. -/
def literalEscape? : Char → Option Char
  | 'n' => some '\n'
  | 'r' => some '\r'
  | 't' => some '\t'
  | '0' => some '\x00'
  | '\\' => some '\\'
  | '"' => some '"'
  | '\'' => some '\''
  | _ => none

def prepend (c : Char) (found : Option (List Char × List Char)) :
    Option (List Char × List Char) :=
  found.map fun (text, rest) => (c :: text, rest)

/-- The text of a literal that goes on with the given characters, and what follows its closing
quote. -/
def readLiteral : LiteralState → List Char → Option (List Char × List Char)
  | _, [] => none
  | .plain, c :: rest =>
    if c = '"' then some ([], rest)
    else if c = '\\' then readLiteral .backslash rest
    else if c = '\r' then none
    else prepend c (readLiteral .plain rest)
  | .backslash, c :: rest =>
    match literalEscape? c with
    | some denoted => prepend denoted (readLiteral .plain rest)
    | none =>
      if c = 'x' then readLiteral (.byte none) rest
      else if c = 'u' then readLiteral .letter rest
      else none
  | .byte high, c :: rest =>
    match hexValue? c, high with
    | some digit, none => if digit < 8 then readLiteral (.byte (some digit)) rest else none
    | some digit, some high => prepend (Char.ofNat (high * 16 + digit)) (readLiteral .plain rest)
    | none, _ => none
  | .letter, c :: rest => if c = '\x7b' then readLiteral (.braces 0 0) rest else none
  | .braces digits value, c :: rest =>
    match hexValue? c with
    | some digit =>
      if digits < 6 then readLiteral (.braces (digits + 1) (value * 16 + digit)) rest else none
    | none =>
      if c = '_' ∧ 0 < digits then readLiteral (.braces digits value) rest
      else if c = '\x7d' ∧ 0 < digits ∧ value.isValidChar then
        prepend (Char.ofNat value) (readLiteral .plain rest)
      else none

/-! Numbers in hexadecimal digits -/

/-- The number that hexadecimal digits make after another number. -/
def hexNumber (value : Nat) (digits : List Char) : Nat :=
  digits.foldl (fun value c => value * 16 + (hexValue? c).getD 0) value

theorem hexValue?_digitChar {d : Nat} (h : d < 16) : hexValue? d.digitChar = some d := by
  have hall : ∀ d : Fin 16, hexValue? (Nat.digitChar d) = some d.val := by decide
  exact hall ⟨d, h⟩

theorem exists_digitChar_of_mem_hexDigits {code : Nat} {c : Char} (h : c ∈ hexDigits code) :
    ∃ d < 16, c = Nat.digitChar d := by
  induction code using Nat.strongRecOn with
  | ind code ih =>
    rw [hexDigits, Nat.toDigits_eq_if (by decide)] at h
    split at h
    · rename_i hlt
      exact ⟨code, hlt, List.mem_singleton.mp h⟩
    · rename_i hge
      rcases List.mem_append.mp h with h | h
      · exact ih (code / 16) (by omega) h
      · exact ⟨code % 16, by omega, List.mem_singleton.mp h⟩

theorem hexNumber_hexDigits (code : Nat) : hexNumber 0 (hexDigits code) = code := by
  induction code using Nat.strongRecOn with
  | ind code ih =>
    rw [hexDigits, Nat.toDigits_eq_if (by decide)]
    split
    · rename_i hlt
      simp [hexNumber, hexValue?_digitChar hlt]
    · rename_i hge
      have hhigh := ih (code / 16) (by omega)
      have hlow := hexValue?_digitChar (Nat.mod_lt code (by decide : 0 < 16))
      rw [hexDigits, hexNumber] at hhigh
      rw [hexNumber, List.foldl_append, hhigh, List.foldl_cons, List.foldl_nil, hlow]
      simp only [Option.getD_some]
      omega

theorem length_hexDigits_pos (code : Nat) : 0 < (hexDigits code).length :=
  Nat.length_toDigits_pos

theorem length_hexDigits_toNat_le (c : Char) : (hexDigits c.toNat).length ≤ 6 := by
  have hvalid : c.toNat < 0x110000 := by
    rcases c.valid with h | ⟨-, h⟩
    · exact Nat.lt_trans h (by decide)
    · exact h
  exact (Nat.length_toDigits_le_iff (by decide) (by decide)).mpr (by omega)

/-! The round trip -/

theorem readLiteral_digits {digits : List Char} (hdigits : ∀ c ∈ digits, ∃ d < 16, c = d.digitChar)
    {count : Nat} (hcount : count + digits.length ≤ 6) (value : Nat) (rest : List Char) :
    readLiteral (.braces count value) (digits ++ rest) =
      readLiteral (.braces (count + digits.length) (hexNumber value digits)) rest := by
  induction digits generalizing count value with
  | nil => rfl
  | cons c digits ih =>
    obtain ⟨⟨d, hd, rfl⟩, hlater⟩ := List.forall_mem_cons.mp hdigits
    rw [List.length_cons] at hcount
    have hvalue := hexValue?_digitChar hd
    rw [List.cons_append, readLiteral, hvalue]
    dsimp only
    rw [if_pos (by omega), ih hlater (by omega)]
    rw [hexNumber, hexNumber, List.foldl_cons, hvalue, Option.getD_some, List.length_cons,
      Nat.add_assoc, Nat.add_comm 1]

theorem readLiteral_codePoint (c : Char) (rest : List Char) :
    readLiteral .plain (['\\', 'u', '\x7b'] ++ hexDigits c.toNat ++ ['\x7d'] ++ rest) =
      prepend c (readLiteral .plain rest) := by
  have hlength := length_hexDigits_toNat_le c
  have hpos := length_hexDigits_pos c.toNat
  have hcount : 0 + (hexDigits c.toNat).length ≤ 6 := by omega
  have hdigits := readLiteral_digits (fun d hd => exists_digitChar_of_mem_hexDigits hd) hcount 0
    ('\x7d' :: rest)
  rw [hexNumber_hexDigits, Nat.zero_add] at hdigits
  have hvalid : c.toNat.isValidChar := c.valid
  show readLiteral (.braces 0 0) (hexDigits c.toNat ++ ['\x7d'] ++ rest) = _
  rw [List.append_assoc, List.cons_append, List.nil_append, hdigits, readLiteral]
  rw [show hexValue? '\x7d' = none from rfl]
  dsimp only
  rw [if_neg (by simp), if_pos ⟨rfl, hpos, hvalid⟩, Char.ofNat_toNat]

theorem readLiteral_escapeChar (c : Char) (rest : List Char) :
    readLiteral .plain (escapeChar '"' c ++ rest) = prepend c (readLiteral .plain rest) := by
  fun_cases escapeChar '"' c with
  | case1 h | case2 _ h | case3 _ _ h | case4 _ _ _ h =>
    subst h
    rfl
  | case5 _ _ _ _ h => rcases h with rfl | rfl <;> rfl
  | case6 _ _ _ hreturn hquote hvisible =>
    obtain ⟨hbackslash, hquote⟩ := not_or.mp hquote
    rw [List.singleton_append, readLiteral, if_neg hquote, if_neg hbackslash, if_neg hreturn]
  | case7 => exact readLiteral_codePoint c rest

/-- The text of a literal is the text that was quoted. -/
theorem readLiteral_quoted (text rest : List Char) :
    readLiteral .plain (text.flatMap (escapeChar '"') ++ '"' :: rest) = some (text, rest) := by
  induction text with
  | nil => rfl
  | cons c text ih =>
    rw [List.flatMap_cons, List.append_assoc, readLiteral_escapeChar, ih]
    rfl

theorem toList_quote (text : String) :
    (quote text).toList = '"' :: (text.toList.flatMap (escapeChar '"') ++ ['"']) := by
  rw [quote, String.toList_ofList, List.cons_append]

/-! One line -/

/-- The characters that end a line, in one convention or another. -/
def lineBreaks : List Char := ['\n', '\x0b', '\x0c', '\r', '\u0085', '\u2028', '\u2029']

/-- Whether a text has no line break. -/
def oneLine (text : List Char) : Bool :=
  text.all fun c => !lineBreaks.contains c

theorem oneLine_cons (c : Char) (text : List Char) :
    oneLine (c :: text) = (!lineBreaks.contains c && oneLine text) := List.all_cons

theorem oneLine_append (text more : List Char) :
    oneLine (text ++ more) = (oneLine text && oneLine more) := List.all_append

theorem lineFeed_not_mem {text : List Char} (h : oneLine text) : '\n' ∉ text := by
  intro hmem
  have hbreak := List.all_eq_true.mp h '\n' hmem
  contradiction

/-- A text that ends with a line feed is made up of lines that end with one. -/
theorem exists_lines (text : List Char) :
    ∃ lines : List (List Char), (∀ line ∈ lines, '\n' ∉ line) ∧
      text ++ ['\n'] = lines.flatMap (· ++ ['\n']) := by
  induction text with
  | nil => exact ⟨[[]], List.forall_mem_singleton.mpr List.not_mem_nil, rfl⟩
  | cons c text ih =>
    obtain ⟨lines, hlines, htext⟩ := ih
    rw [List.cons_append, htext]
    by_cases hc : c = '\n'
    · subst hc
      exact ⟨[] :: lines, List.forall_mem_cons.mpr ⟨List.not_mem_nil, hlines⟩, rfl⟩
    · cases lines with
      | nil => exact absurd htext (by simp)
      | cons line lines =>
        obtain ⟨hline, hlater⟩ := List.forall_mem_cons.mp hlines
        refine ⟨(c :: line) :: lines, List.forall_mem_cons.mpr ⟨?_, hlater⟩, rfl⟩
        exact List.not_mem_cons_of_ne_of_not_mem (Ne.symm hc) hline

theorem oneLine_singleton_of_isVisible {c : Char} (h : isVisible c) : oneLine [c] := by
  have hall : lineBreaks.all (fun c => !isVisible c) := by decide +kernel
  rw [oneLine_cons, Bool.and_eq_true]
  refine ⟨?_, rfl⟩
  rw [Bool.not_eq_true', Bool.eq_false_iff]
  intro hc
  have hnot := List.all_eq_true.mp hall c (List.contains_iff_mem.mp hc)
  rw [Bool.not_eq_true'] at hnot
  exact Bool.false_ne_true (hnot.symm.trans h)

theorem oneLine_hexDigits (code : Nat) : oneLine (hexDigits code) := by
  have hall : (List.range 16).all fun d => oneLine [Nat.digitChar d] := by decide
  refine List.all_eq_true.mpr fun c hc => ?_
  obtain ⟨d, hd, rfl⟩ := exists_digitChar_of_mem_hexDigits hc
  have hdigit := List.all_eq_true.mp hall d (List.mem_range.mpr hd)
  exact List.all_eq_true.mp hdigit _ List.mem_cons_self

theorem oneLine_escapeChar (c : Char) : oneLine (escapeChar '"' c) := by
  fun_cases escapeChar '"' c with
  | case1 | case2 | case3 | case4 => rfl
  | case5 _ _ _ _ h => rcases h with rfl | rfl <;> rfl
  | case6 _ _ _ _ _ hvisible => exact oneLine_singleton_of_isVisible hvisible
  | case7 =>
    rw [oneLine_append, oneLine_append, oneLine_hexDigits]
    rfl

theorem oneLine_escaped (text : List Char) : oneLine (text.flatMap (escapeChar '"')) := by
  induction text with
  | nil => rfl
  | cons c text ih => rw [List.flatMap_cons, oneLine_append, oneLine_escapeChar, ih, Bool.true_and]

theorem oneLine_quote (text : String) : oneLine (quote text).toList := by
  rw [toList_quote, oneLine_cons, oneLine_append, oneLine_escaped]
  rfl

/-- A text on one line has characters that are no line breaks. -/
theorem oneLine_of_forall {p : Char → Bool} (hp : lineBreaks.all fun c => !p c) {text : List Char}
    (h : ∀ c ∈ text, p c) : oneLine text := by
  refine List.all_eq_true.mpr fun c hc => ?_
  rw [Bool.not_eq_true', Bool.eq_false_iff]
  intro hbreak
  have hnot := List.all_eq_true.mp hp c (List.contains_iff_mem.mp hbreak)
  rw [h c hc] at hnot
  contradiction

theorem oneLine_of_subset {text more : List Char} (h : text ⊆ more) (hmore : oneLine more) :
    oneLine text :=
  List.all_eq_true.mpr fun c hc => List.all_eq_true.mp hmore c (h hc)

theorem oneLine_intercalate {separator : List Char} (hseparator : oneLine separator)
    {texts : List (List Char)} (h : ∀ text ∈ texts, oneLine text) :
    oneLine (separator.intercalate texts) := by
  induction texts with
  | nil => rfl
  | cons text texts ih =>
    obtain ⟨htext, hrest⟩ := List.forall_mem_cons.mp h
    cases texts with
    | nil =>
      rw [List.intercalate_singleton]
      exact htext
    | cons next texts =>
      rw [List.intercalate_cons_cons, oneLine_append, oneLine_append, htext, hseparator, ih hrest]
      rfl

end Exemplar.Text
