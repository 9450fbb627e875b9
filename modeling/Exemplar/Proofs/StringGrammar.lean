import Exemplar.Proofs.Utf8

/-!
# The grammar of strings

Between its quotes a string holds characters, each in UTF-8 or as an escape sequence. A reader that
goes byte by byte does not see characters: it collects every byte that is not escaped, and the bytes
of every character that is, and asks only at the end whether it has collected a text. It reads the
same strings. An escape sequence contributes whole characters, and these do not begin with a byte
that continues one; so what is not escaped is made of whole characters as well.
-/

namespace Exemplar

/-- A hexadecimal digit of either case. -/
def HexDigit (b : UInt8) (digit : ℕ) : Prop :=
  digit < 16 ∧
    (b = (Nat.digitChar digit).toUInt8 ∨ b = (Nat.digitChar digit).toUpper.toUInt8)

/-- Hexadecimal digits and the number that they write. -/
inductive HexDigits : List UInt8 → ℕ → Prop
  | nil : HexDigits [] 0
  | snoc {digits : List UInt8} {value digit : ℕ} {b : UInt8} :
    HexDigits digits value → HexDigit b digit → HexDigits (digits ++ [b]) (value * 16 + digit)

/-- A backslash, the letter `u` and four digits, and the code unit that they write. -/
inductive UnitEscape : List UInt8 → ℕ → Prop
  | digits {digits : List UInt8} {value : ℕ} : HexDigits digits value → digits.length = 4 →
    UnitEscape ('\\'.toUInt8 :: 'u'.toUInt8 :: digits) value

/-- The letters that may follow a backslash, and what they stand for. -/
def shortEscapes : List (Char × Char) :=
  [('"', '"'), ('\\', '\\'), ('/', '/'), ('b', '\x08'), ('f', '\x0c'), ('n', '\n'), ('r', '\r'),
    ('t', '\t')]

/-- An escape sequence and the character that it stands for. A character beyond the code units is
written as a high surrogate and a low one. -/
inductive Escaped : List UInt8 → Char → Prop
  | short {letter c : Char} : (letter, c) ∈ shortEscapes →
    Escaped ['\\'.toUInt8, letter.toUInt8] c
  | unit {bytes : List UInt8} {c : Char} : UnitEscape bytes c.toNat → Escaped bytes c
  | pair {highBytes lowBytes : List UInt8} {high low : ℕ} {c : Char} :
    UnitEscape highBytes high → UnitEscape lowBytes low →
    0xD800 ≤ high → high < 0xDC00 → 0xDC00 ≤ low → low < 0xE000 →
    c.toNat = 0x10000 + (high - 0xD800) * 0x400 + (low - 0xDC00) →
    Escaped (highBytes ++ lowBytes) c

/-- What stands between the quotes of a string, and its text. -/
inductive StringBody : List UInt8 → List Char → Prop
  | nil : StringBody [] []
  | plain {c : Char} {body : List UInt8} {text : List Char} :
    0x20 ≤ c.toNat → c ≠ '"' → c ≠ '\\' → StringBody body text →
    StringBody (String.utf8EncodeChar c ++ body) (c :: text)
  | escaped {c : Char} {bytes body : List UInt8} {text : List Char} :
    Escaped bytes c → StringBody body text → StringBody (bytes ++ body) (c :: text)

/-- The bytes are a string with this text. -/
inductive StringLiteral : List UInt8 → String → Prop
  | quoted {body : List UInt8} {s : String} : StringBody body s.toList →
    StringLiteral ('"'.toUInt8 :: (body ++ ['"'.toUInt8])) s

/-! Byte by byte -/

/-- A byte that stands for itself. -/
def IsRaw (b : UInt8) : Prop := 0x20 ≤ b.toNat ∧ b ≠ '"'.toUInt8 ∧ b ≠ '\\'.toUInt8

/-- What stands between the quotes of a string, and the bytes that are collected from it. -/
inductive Collected : List UInt8 → List UInt8 → Prop
  | nil : Collected [] []
  | raw {b : UInt8} {body collected : List UInt8} : IsRaw b → Collected body collected →
    Collected (b :: body) (b :: collected)
  | escaped {c : Char} {bytes body collected : List UInt8} :
    Escaped bytes c → Collected body collected →
    Collected (bytes ++ body) (String.utf8EncodeChar c ++ collected)

theorem Collected.append {body collected more moreCollected : List UInt8}
    (h : Collected body collected) (hmore : Collected more moreCollected) :
    Collected (body ++ more) (collected ++ moreCollected) := by
  induction h with
  | nil => exact hmore
  | raw hraw _ ih => exact .raw hraw ih
  | escaped hescaped _ ih =>
    rw [List.append_assoc, List.append_assoc]
    exact .escaped hescaped ih

theorem Collected.of_isRaw {bytes : List UInt8} (h : ∀ b ∈ bytes, IsRaw b) :
    Collected bytes bytes := by
  induction bytes with
  | nil => exact .nil
  | cons b bytes ih =>
    obtain ⟨hb, hbytes⟩ := List.forall_mem_cons.mp h
    exact .raw hb (ih hbytes)

theorem isRaw_toUInt8_iff {c : Char} (h : c.toNat < 128) :
    IsRaw c.toUInt8 ↔ 0x20 ≤ c.toNat ∧ c ≠ '"' ∧ c ≠ '\\' := by
  have hne {d : Char} (hd : d.toNat < 128) : c.toUInt8 ≠ d.toUInt8 ↔ c ≠ d := by
    refine not_congr ⟨fun heq => ?_, congrArg _⟩
    have hback := congrArg Char.ofUInt8 heq
    rwa [Utf8.ofUInt8_toUInt8 (by omega), Utf8.ofUInt8_toUInt8 (by omega)] at hback
  rw [IsRaw, Utf8.toNat_toUInt8 (by omega), hne (by decide), hne (by decide)]

theorem isRaw_of_le {b : UInt8} (h : 128 ≤ b.toNat) : IsRaw b := by
  refine ⟨by omega, ?_, ?_⟩
  · rintro rfl
    contradiction
  · rintro rfl
    contradiction

theorem isRaw_of_mem {c : Char} (hlow : 0x20 ≤ c.toNat) (hquote : c ≠ '"') (hbackslash : c ≠ '\\') :
    ∀ b ∈ String.utf8EncodeChar c, IsRaw b := by
  rcases Nat.lt_or_ge c.toNat 128 with h | h
  · rw [Utf8.utf8EncodeChar_of_lt h]
    exact List.forall_mem_singleton.mpr ((isRaw_toUInt8_iff h).mpr ⟨hlow, hquote, hbackslash⟩)
  · exact fun b hb => isRaw_of_le (Utf8.le_toNat_of_mem h b hb)

theorem StringBody.collected {body : List UInt8} {text : List Char} (h : StringBody body text) :
    Collected body (text.flatMap String.utf8EncodeChar) := by
  induction h with
  | nil => exact .nil
  | plain hlow hquote hbackslash _ ih =>
    exact (Collected.of_isRaw (isRaw_of_mem hlow hquote hbackslash)).append ih
  | escaped hescaped _ ih => exact .escaped hescaped ih

/-- Bytes that continue a character are not escaped. -/
theorem Collected.of_continues {body bytes collected : List UInt8}
    (hbytes : ∀ b ∈ bytes, Utf8.Continues b) (h : Collected body (bytes ++ collected)) :
    ∃ rest, body = bytes ++ rest ∧ Collected rest collected := by
  induction bytes generalizing body with
  | nil => exact ⟨body, rfl, h⟩
  | cons b bytes ih =>
    obtain ⟨hb, hlater⟩ := List.forall_mem_cons.mp hbytes
    generalize heq : b :: bytes ++ collected = all at h
    cases h with
    | nil => cases heq
    | raw hraw hrest =>
      obtain ⟨rfl, rfl⟩ := List.cons.inj heq
      obtain ⟨rest, rfl, hcollected⟩ := ih hlater hrest
      exact ⟨rest, rfl, hcollected⟩
    | @escaped c _ _ _ hescaped hrest =>
      obtain ⟨first, others, hchar, hfirst, -⟩ := Utf8.utf8EncodeChar_eq_cons c
      rw [hchar] at heq
      obtain ⟨rfl, -⟩ := List.cons.inj heq
      obtain ⟨hlow, hhigh⟩ := hb
      omega

/-- If a text has been collected, then character by character. -/
theorem Collected.stringBody {body : List UInt8} {text : List Char}
    (h : Collected body (text.flatMap String.utf8EncodeChar)) : StringBody body text := by
  induction text generalizing body with
  | nil =>
    generalize heq : [].flatMap String.utf8EncodeChar = all at h
    cases h with
    | nil => exact .nil
    | raw => cases heq
    | @escaped c =>
      obtain ⟨first, others, hchar, -⟩ := Utf8.utf8EncodeChar_eq_cons c
      rw [hchar] at heq
      cases heq
  | cons c text ih =>
    rw [List.flatMap_cons] at h
    obtain ⟨first, others, hchar, hfirst, hothers⟩ := Utf8.utf8EncodeChar_eq_cons c
    generalize heq : String.utf8EncodeChar c ++ text.flatMap String.utf8EncodeChar = all at h
    cases h with
    | nil =>
      rw [hchar] at heq
      cases heq
    | @raw b _ _ hraw hrest =>
      rw [hchar] at heq
      obtain ⟨rfl, rfl⟩ := List.cons.inj heq
      obtain ⟨rest, rfl, hcollected⟩ := hrest.of_continues hothers
      rw [← List.cons_append, ← hchar]
      have hplain : 0x20 ≤ c.toNat ∧ c ≠ '"' ∧ c ≠ '\\' := by
        rcases Nat.lt_or_ge c.toNat 128 with hlt | hge
        · rw [Utf8.utf8EncodeChar_of_lt hlt] at hchar
          obtain ⟨rfl, -⟩ := List.cons.inj hchar
          exact (isRaw_toUInt8_iff hlt).mp hraw
        · refine ⟨by omega, ?_, ?_⟩
          · rintro rfl
            contradiction
          · rintro rfl
            contradiction
      exact .plain hplain.1 hplain.2.1 hplain.2.2 (ih hcollected)
    | escaped hescaped hrest =>
      obtain ⟨rfl, rfl⟩ := Utf8.eq_of_utf8EncodeChar_append heq
      exact .escaped hescaped (ih hrest)

/-- A string is read byte by byte as it is read character by character. -/
theorem stringBody_iff {body : List UInt8} {text : List Char} :
    StringBody body text ↔ Collected body (text.flatMap String.utf8EncodeChar) :=
  ⟨StringBody.collected, Collected.stringBody⟩

end Exemplar
