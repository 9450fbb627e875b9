import Mathlib
import Exemplar.Identifier

/-!
# Identifiers are proper names

Whatever the key, its identifier is an upper-case letter followed by letters and digits of ASCII.
-/

namespace Exemplar.Identifier

/-- An upper-case letter followed by letters and digits. -/
def Proper (name : String) : Prop :=
  ∃ first rest, name.toList = first :: rest ∧ first.isUpper ∧ ∀ c ∈ rest, c.isAlphanum

theorem Proper.isAlphanum {name : String} (h : Proper name) : ∀ c ∈ name.toList, c.isAlphanum := by
  obtain ⟨first, rest, hname, hfirst, hrest⟩ := h
  rw [hname]
  refine List.forall_mem_cons.mpr ⟨?_, hrest⟩
  simp [Char.isAlphanum, Char.isAlpha, hfirst]

theorem Proper.append {name suffix : String} (h : Proper name)
    (hsuffix : ∀ c ∈ suffix.toList, c.isAlphanum) : Proper (name ++ suffix) := by
  obtain ⟨first, rest, hname, hfirst, hrest⟩ := h
  refine ⟨first, rest ++ suffix.toList, ?_, hfirst, ?_⟩
  · rw [String.toList_append, hname, List.cons_append]
  · exact List.forall_mem_append.mpr ⟨hrest, hsuffix⟩

theorem Proper.append_digits {name suffix : String} (h : Proper name)
    (hsuffix : ∀ c ∈ suffix.toList, c.isDigit) : Proper (name ++ suffix) := by
  refine h.append fun c hc => ?_
  rw [Char.isAlphanum, hsuffix c hc, Bool.or_true]

/-- No part of a split text contains a place where it was split. -/
theorem not_of_mem_splitOnP {p : Char → Bool} {text part : List Char}
    (h : part ∈ text.splitOnP p) : ∀ c ∈ part, p c = false := by
  induction text generalizing part with
  | nil =>
    rw [List.splitOnP_nil, List.mem_singleton] at h
    subst h
    exact fun c hc => absurd hc List.not_mem_nil
  | cons x text ih =>
    rw [List.splitOnP_cons_eq_if_modifyHead] at h
    split at h
    · rcases List.mem_cons.mp h with rfl | hpart
      · exact fun c hc => absurd hc List.not_mem_nil
      · exact ih hpart
    · rename_i hx
      cases hparts : text.splitOnP p with
      | nil => exact absurd hparts (List.splitOnP_ne_nil p text)
      | cons head parts =>
        rw [hparts, List.modifyHead_cons] at h
        rcases List.mem_cons.mp h with rfl | hpart
        · have hhead : ∀ c ∈ head, p c = false := ih (hparts ▸ List.mem_cons_self)
          exact List.forall_mem_cons.mpr ⟨Bool.eq_false_of_not_eq_true hx, hhead⟩
        · exact ih (hparts ▸ List.mem_cons_of_mem head hpart)

theorem words_proper {text word : List Char} (h : word ∈ words text) :
    word ≠ [] ∧ ∀ c ∈ word, c.isAlphanum := by
  obtain ⟨hpart, hne⟩ := List.mem_filter.mp h
  have hchars := not_of_mem_splitOnP hpart
  exact ⟨by simpa using hne, fun c hc => by simpa using hchars c hc⟩

theorem toUpper_eq_of_isDigit {c : Char} (h : c.isDigit) : c.toUpper = c := by
  apply Char.toUpper_eq_of_not_isLower
  intro hlower
  simp only [Char.isDigit, Char.isLower, Bool.and_eq_true, decide_eq_true_eq, ge_iff_le,
    UInt32.le_iff_toNat_le] at h hlower
  have hnine : '9'.val.toNat = 57 := rfl
  have ha : 'a'.val.toNat = 97 := rfl
  omega

theorem isAlphanum_toUpper {c : Char} (h : c.isAlphanum) : c.toUpper.isAlphanum := by
  rcases (Bool.or_eq_true _ _).mp h with halpha | hdigit
  · rw [Char.isAlphanum, Char.isAlpha_toUpper_eq_isAlpha, halpha, Bool.true_or]
  · rwa [toUpper_eq_of_isDigit hdigit]

/-- A word is written with its first letter in upper case. -/
theorem styleWord_eq (initialisms : Initialisms) {c : Char} {word : List Char}
    (hword : ∀ d ∈ c :: word, d.isAlphanum) :
    ∃ rest, styleWord initialisms (c :: word) = c.toUpper :: rest ∧ ∀ d ∈ rest, d.isAlphanum := by
  obtain ⟨-, hrest⟩ := List.forall_mem_cons.mp hword
  rw [styleWord]
  split
  · refine ⟨word.map Char.toUpper, rfl, ?_⟩
    intro d hd
    obtain ⟨e, he, rfl⟩ := List.mem_map.mp hd
    exact isAlphanum_toUpper (hrest e he)
  · exact ⟨word, rfl, hrest⟩

theorem isAlphanum_styleWord (initialisms : Initialisms) {word : List Char}
    (hword : word ≠ [] ∧ ∀ d ∈ word, d.isAlphanum) :
    ∀ d ∈ styleWord initialisms word, d.isAlphanum := by
  cases word with
  | nil => exact absurd rfl hword.1
  | cons c word =>
    obtain ⟨rest, heq, hrest⟩ := styleWord_eq initialisms hword.2
    rw [heq]
    exact List.forall_mem_cons.mpr ⟨isAlphanum_toUpper (hword.2 c List.mem_cons_self), hrest⟩

/-- The text of the words of a key is empty or begins with a digit or a capital. -/
theorem styled_words (initialisms : Initialisms) {key : List Char} {c : Char} {text : List Char}
    (h : (words key).flatMap (styleWord initialisms) = c :: text) :
    (c.isDigit ∨ c.isUpper) ∧ ∀ d ∈ text, d.isAlphanum := by
  have hwords : ∀ word ∈ words key, word ≠ [] ∧ ∀ d ∈ word, d.isAlphanum :=
    fun word hword => words_proper hword
  cases hlist : words key with
  | nil =>
    rw [hlist] at h
    contradiction
  | cons word more =>
    rw [hlist] at h hwords
    obtain ⟨hword, hmore⟩ := List.forall_mem_cons.mp hwords
    have hlater : ∀ d ∈ more.flatMap (styleWord initialisms), d.isAlphanum := by
      intro d hd
      obtain ⟨other, hother, hd⟩ := List.mem_flatMap.mp hd
      exact isAlphanum_styleWord initialisms (hmore other hother) d hd
    cases word with
    | nil => exact absurd rfl hword.1
    | cons first word =>
      obtain ⟨rest, heq, hrest⟩ := styleWord_eq initialisms hword.2
      rw [List.flatMap_cons, heq, List.cons_append] at h
      obtain ⟨rfl, rfl⟩ := List.cons.inj h
      have hfirst := hword.2 first List.mem_cons_self
      refine ⟨?_, List.forall_mem_append.mpr ⟨hrest, hlater⟩⟩
      rcases (Bool.or_eq_true _ _).mp hfirst with halpha | hdigit
      · exact Or.inr (by rwa [Char.isUpper_toUpper_eq_isAlpha])
      · exact Or.inl (by rwa [toUpper_eq_of_isDigit hdigit])

theorem proper_ofKey (initialisms : Initialisms) (key : String) :
    Proper (ofKey initialisms key) := by
  rw [ofKey]
  split
  · exact ⟨'D', ['o', 't'], rfl, rfl, List.all_eq_true.mp rfl⟩
  · split
    · exact ⟨'U', ['n', 'k', 'n', 'o', 'w', 'n'], rfl, rfl, List.all_eq_true.mp rfl⟩
    · rename_i c text htext
      obtain ⟨hfirst, hrest⟩ := styled_words initialisms htext
      split
      · rename_i hdigit
        refine ⟨'N', 'u' :: 'm' :: c :: text, by simp, by decide, ?_⟩
        intro d hd
        simp only [List.mem_cons] at hd
        rcases hd with rfl | rfl | rfl | hd
        · decide
        · decide
        · simp [Char.isAlphanum, hdigit]
        · exact hrest d hd
      · rename_i hdigit
        exact ⟨c, text, String.toList_ofList, hfirst.resolve_left hdigit, hrest⟩

end Exemplar.Identifier
