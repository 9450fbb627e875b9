import Exemplar.Token.Scan
import Mathlib.Data.List.Basic

/-!
# The bytes of a text

Texts are read as bytes and written as bytes, each character as one to four of them. The first byte
of a character is no byte that continues one, and no character is the beginning of another; so the
bytes of a text can be taken apart into its characters in one way only. Texts compare by their bytes
as they do by their characters.
-/

namespace Exemplar.Utf8

theorem toList_loop (bytes : ByteArray) (i : ℕ) (seen : List UInt8) :
    ByteArray.toList.loop bytes i seen = seen.reverse ++ bytes.data.toList.drop i := by
  fun_induction ByteArray.toList.loop bytes i seen with
  | case1 i seen h ih =>
    have hlt : i < bytes.data.toList.length := by simpa using h
    rw [ih, List.drop_eq_getElem_cons hlt]
    simp [ByteArray.get!, h]
  | case2 i seen h =>
    rw [List.drop_eq_nil_of_le (by simpa using Nat.le_of_not_lt h), List.append_nil]

theorem toList_toByteArray (bytes : List UInt8) : bytes.toByteArray.toList = bytes := by
  rw [ByteArray.toList, toList_loop, List.toList_data_toByteArray]
  rfl

/-- The bytes of a text are the bytes of its characters. -/
theorem toList_toUTF8 (text : String) :
    text.toUTF8.toList = text.toList.flatMap String.utf8EncodeChar := by
  have hbytes : text.toUTF8 = (text.toList.flatMap String.utf8EncodeChar).toByteArray := by
    rw [String.toUTF8_eq_toByteArray, ← String.utf8Encode_toList, List.utf8Encode]
  rw [hbytes, toList_toByteArray]

/-! Characters of one byte -/

theorem utf8EncodeChar_of_lt {c : Char} (h : c.toNat < 128) :
    String.utf8EncodeChar c = [c.toUInt8] := by
  have hsize : c.utf8Size = 1 := by
    rw [Char.utf8Size_eq_one_iff, UInt32.le_iff_toNat_le]
    exact Nat.le_of_lt_succ h
  rw [String.utf8EncodeChar_eq_singleton hsize, Char.toUInt8_val]

theorem toNat_ofUInt8 (b : UInt8) : (Char.ofUInt8 b).toNat = b.toNat := UInt8.toNat_toUInt32 b

theorem toNat_toUInt8 {c : Char} (h : c.toNat < 256) : c.toUInt8.toNat = c.toNat :=
  Nat.mod_eq_of_lt h

theorem ofUInt8_toUInt8 {c : Char} (h : c.toNat < 256) : Char.ofUInt8 c.toUInt8 = c := by
  rw [← Char.toNat_inj, toNat_ofUInt8, toNat_toUInt8 h]

theorem ofUInt8_eq_iff {b : UInt8} {c : Char} (h : c.toNat < 256) :
    Char.ofUInt8 b = c ↔ b = c.toUInt8 := by
  constructor
  · rintro rfl
    rw [← UInt8.toNat_inj, toNat_toUInt8 h, toNat_ofUInt8]
  · rintro rfl
    exact ofUInt8_toUInt8 h

theorem map_ofUInt8 {text : List Char} (h : ∀ c ∈ text, c.toNat < 128) :
    (text.map Char.toUInt8).map Char.ofUInt8 = text := by
  induction text with
  | nil => rfl
  | cons c text ih =>
    obtain ⟨hc, htext⟩ := List.forall_mem_cons.mp h
    rw [List.map_cons, List.map_cons, ofUInt8_toUInt8 (Nat.lt_trans hc (by decide)), ih htext]

theorem flatMap_utf8EncodeChar {text : List Char} (h : ∀ c ∈ text, c.toNat < 128) :
    text.flatMap String.utf8EncodeChar = text.map Char.toUInt8 := by
  induction text with
  | nil => rfl
  | cons c text ih =>
    obtain ⟨hc, htext⟩ := List.forall_mem_cons.mp h
    rw [List.flatMap_cons, utf8EncodeChar_of_lt hc, ih htext]
    rfl

/-! First bytes -/

/-- A byte that stands within a character, but not first. -/
def Continues (b : UInt8) : Prop := 128 ≤ b.toNat ∧ b.toNat < 192

theorem continues_ofNat (n : ℕ) : Continues (UInt8.ofNat (n % 64 + 128)) := by
  have hvalue : (UInt8.ofNat (n % 64 + 128)).toNat = n % 64 + 128 := Nat.mod_eq_of_lt (by omega)
  rw [Continues, hvalue]
  omega

/-- The first byte of a character tells that it is the first, and whether others follow. -/
theorem utf8EncodeChar_eq_cons (c : Char) :
    ∃ first rest, String.utf8EncodeChar c = first :: rest ∧
      (c.toNat < 128 ∧ first.toNat < 128 ∨ 128 ≤ c.toNat ∧ 192 ≤ first.toNat) ∧
      ∀ b ∈ rest, Continues b := by
  have hfirst {n : ℕ} (hn : n < 256) : (UInt8.ofNat n).toNat = n := Nat.mod_eq_of_lt hn
  have hcode : c.toNat = c.val.toNat := rfl
  rw [String.utf8EncodeChar.eq_def]
  dsimp only
  split
  · refine ⟨_, _, rfl, ?_, List.forall_mem_nil _⟩
    rw [hfirst (by omega)]
    omega
  · split
    · refine ⟨_, _, rfl, ?_, List.forall_mem_singleton.mpr (continues_ofNat _)⟩
      rw [hfirst (by omega)]
      omega
    · split
      · refine ⟨_, _, rfl, ?_, ?_⟩
        · rw [hfirst (by omega)]
          omega
        · simp only [List.forall_mem_cons, continues_ofNat, true_and]
          exact List.forall_mem_nil _
      · refine ⟨_, _, rfl, ?_, ?_⟩
        · rw [hfirst (by omega)]
          omega
        · simp only [List.forall_mem_cons, continues_ofNat, true_and]
          exact List.forall_mem_nil _

theorem le_toNat_of_mem {c : Char} (h : 128 ≤ c.toNat) :
    ∀ b ∈ String.utf8EncodeChar c, 128 ≤ b.toNat := by
  obtain ⟨first, rest, heq, hfirst, hrest⟩ := utf8EncodeChar_eq_cons c
  rw [heq]
  exact List.forall_mem_cons.mpr ⟨by omega, fun b hb => (hrest b hb).1⟩

/-- No character is the beginning of another one. -/
theorem eq_of_utf8EncodeChar_append {c d : Char} {bytes more : List UInt8}
    (h : String.utf8EncodeChar c ++ bytes = String.utf8EncodeChar d ++ more) :
    c = d ∧ bytes = more := by
  have hdecode (c : Char) (bytes : List UInt8) :
      (String.utf8EncodeChar c ++ bytes).toByteArray.utf8DecodeChar? 0 = some c := by
    rw [List.toByteArray_append]
    exact ByteArray.utf8DecodeChar?_utf8EncodeChar_append
  obtain rfl : c = d := by
    have hc := hdecode c bytes
    rw [h, hdecode d more] at hc
    exact (Option.some.inj hc).symm
  exact ⟨rfl, List.append_cancel_left h⟩

theorem fromUTF8?_eq_some_iff {bytes : List UInt8} {text : String} :
    String.fromUTF8? ⟨bytes.toArray⟩ = some text ↔
      bytes = text.toList.flatMap String.utf8EncodeChar := by
  have harray : (⟨bytes.toArray⟩ : ByteArray) = bytes.toByteArray := ByteArray.ext (by simp)
  have htext : text.toByteArray = (text.toList.flatMap String.utf8EncodeChar).toByteArray := by
    rw [← String.utf8Encode_toList, List.utf8Encode]
  rw [← List.toByteArray_inj, ← htext, harray, String.fromUTF8?]
  split
  · rw [Option.some.injEq, ← String.toByteArray_inj]
    rfl
  · rename_i hvalid
    refine iff_of_false (by simp) ?_
    intro heq
    rw [heq] at hvalid
    exact hvalid text.isValidUTF8

/-! Order -/

theorem ofNat_lt_iff {m n : ℕ} (hm : m < 256) (hn : n < 256) :
    UInt8.ofNat m < UInt8.ofNat n ↔ m < n := by
  rw [UInt8.lt_iff_toNat_lt]
  change m % 256 < n % 256 ↔ m < n
  omega

theorem ofNat_eq_iff {m n : ℕ} (hm : m < 256) (hn : n < 256) :
    UInt8.ofNat m = UInt8.ofNat n ↔ m = n := by
  rw [← UInt8.toNat_inj]
  change m % 256 = n % 256 ↔ m = n
  omega

/-- The bytes of two characters compare as the characters do, whatever follows them. -/
theorem append_lt_of_lt {c d : Char} (h : c < d) (bytes more : List UInt8) :
    String.utf8EncodeChar c ++ bytes < String.utf8EncodeChar d ++ more := by
  have hcode : c.val.toNat < d.val.toNat := h
  have hrange : d.val.toNat < 1114112 := by
    have hvalid : d.val.toNat < 55296 ∨ 57343 < d.val.toNat ∧ d.val.toNat < 1114112 := d.valid
    omega
  rw [String.utf8EncodeChar.eq_def, String.utf8EncodeChar.eq_def]
  dsimp only
  generalize c.val.toNat = v at hcode
  generalize d.val.toNat = w at hcode hrange
  have htwo (n : ℕ) : n / 4096 = n / 64 / 64 := by rw [Nat.div_div_eq_div_mul]
  have hthree (n : ℕ) : n / 262144 = n / 64 / 64 / 64 := by
    rw [Nat.div_div_eq_div_mul, Nat.div_div_eq_div_mul]
  simp only [htwo, hthree]
  -- the first bytes differ if the lengths do; else the digits to base 64 are compared in turn
  split_ifs <;>
    simp (disch := omega) only [List.cons_append, List.nil_append, List.cons_lt_cons_iff,
      ofNat_lt_iff, ofNat_eq_iff] <;>
    omega

/-- Texts in the order of their characters are in the order of their bytes. -/
theorem toUTF8_lt_toUTF8 {a b : String} (h : a < b) : a.toUTF8.toList < b.toUTF8.toList := by
  rw [toList_toUTF8, toList_toUTF8]
  rw [String.lt_iff] at h
  generalize a.toList = text at h
  generalize b.toList = other at h
  induction text generalizing other with
  | nil =>
    cases other with
    | nil => exact absurd h (List.not_lt_nil [])
    | cons d other =>
      obtain ⟨first, rest, hd, -, -⟩ := utf8EncodeChar_eq_cons d
      rw [List.flatMap_cons, hd]
      exact List.nil_lt_cons ..
  | cons c text ih =>
    cases other with
    | nil => exact absurd h (List.not_lt_nil _)
    | cons d other =>
      rw [List.flatMap_cons, List.flatMap_cons]
      rcases List.cons_lt_cons_iff.mp h with hlt | ⟨rfl, hrest⟩
      · exact append_lt_of_lt hlt _ _
      · exact List.append_left_lt (ih _ hrest)

end Exemplar.Utf8
