import Mathlib
import Exemplar.Proofs.Identifiers

/-!
# What an identifier keeps of its key

A key is cut into words, and the words are written one after another. So an identifier has the
letters and digits of its key, in their order and up to their case, behind a marker if the first of
them is a digit; and what stands between the words of a key does not matter.
-/

namespace Exemplar.Identifier

/-! Words -/

/-- A text is cut into words: these are its longest runs of ASCII letters and digits, in order. -/
inductive Cut : List Char → List (List Char) → Prop where
  | none {gap : List Char} (hgap : ∀ c ∈ gap, c.isAlphanum = false) : Cut gap []
  | word {gap word rest : List Char} {more : List (List Char)}
      (hgap : ∀ c ∈ gap, c.isAlphanum = false) (hne : word ≠ [])
      (hword : ∀ c ∈ word, c.isAlphanum) (hend : ∀ c ∈ rest.head?, c.isAlphanum = false)
      (hmore : Cut rest more) : Cut (gap ++ (word ++ rest)) (word :: more)

theorem words_cons_gap {c : Char} (hc : c.isAlphanum = false) (text : List Char) :
    words (c :: text) = words text := by
  let isGap (c : Char) : Bool := !c.isAlphanum
  have hsep : isGap c := by simp [isGap, hc]
  have hsplit := List.splitOnP_append_cons (p := isGap) [] text hsep
  rw [List.nil_append, List.splitOnP_nil] at hsplit
  rw [words, hsplit]
  simp [words, isGap]

theorem words_gap_append {gap : List Char} (hgap : ∀ c ∈ gap, c.isAlphanum = false)
    (text : List Char) : words (gap ++ text) = words text := by
  induction gap with
  | nil => rfl
  | cons c gap ih =>
    obtain ⟨hc, hrest⟩ := List.forall_mem_cons.mp hgap
    rw [List.cons_append, words_cons_gap hc, ih hrest]

/-- A run of letters and digits is one word, if no other follows it at once. -/
theorem words_word_append {word rest : List Char} (hne : word ≠ [])
    (hword : ∀ c ∈ word, c.isAlphanum) (hend : ∀ c ∈ rest.head?, c.isAlphanum = false) :
    words (word ++ rest) = word :: words rest := by
  have hinside : ∀ c ∈ word, (!c.isAlphanum) = false := fun c hc => by simp [hword c hc]
  cases rest with
  | nil =>
    rw [List.append_nil, words, List.splitOnP_eq_singleton hinside]
    simp [hne, words]
  | cons c rest =>
    have hc : c.isAlphanum = false := hend c rfl
    rw [words_cons_gap hc, words,
      List.splitOnP_append_cons_of_forall_mem hinside c (by simpa using hc)]
    simp [hne, words]

variable {text : List Char} {cut : List (List Char)}

theorem Cut.words_eq (h : Cut text cut) : words text = cut := by
  induction h with
  | none hgap =>
    have hwords := words_gap_append hgap []
    rwa [List.append_nil] at hwords
  | word hgap hne hword hend _ ih =>
    rw [words_gap_append hgap, words_word_append hne hword hend, ih]

/-- Every text can be cut, word by word. -/
theorem exists_cut (text : List Char) : ∃ cut, Cut text cut := by
  induction hlength : text.length using Nat.strong_induction_on generalizing text with
  | _ length ih =>
    let isGap (c : Char) : Bool := !c.isAlphanum
    have hgap : ∀ c ∈ text.takeWhile isGap, c.isAlphanum = false :=
      fun c hc => by simpa [isGap] using List.mem_takeWhile_imp hc
    have htext : text.takeWhile isGap ++ text.dropWhile isGap = text :=
      List.takeWhile_append_dropWhile
    cases hlater : text.dropWhile isGap with
    | nil =>
      rw [hlater, List.append_nil] at htext
      exact ⟨[], htext ▸ .none hgap⟩
    | cons first later =>
      have hfirst : first.isAlphanum := by
        have hhead := List.head?_dropWhile_not isGap text
        simpa [isGap, hlater] using hhead
      let word := (first :: later).takeWhile Char.isAlphanum
      let rest := (first :: later).dropWhile Char.isAlphanum
      have hsplit : word ++ rest = first :: later := List.takeWhile_append_dropWhile
      have hne : word ≠ [] := by simp [word, hfirst]
      have hword : ∀ c ∈ word, c.isAlphanum := fun c hc => List.mem_takeWhile_imp hc
      have hend : ∀ c ∈ rest.head?, c.isAlphanum = false := by
        intro c hc
        have hhead := List.head?_dropWhile_not Char.isAlphanum (first :: later)
        rw [Option.mem_def.mp hc] at hhead
        simpa using hhead
      have hshorter : rest.length < length := by
        have hwhole := congrArg List.length htext
        have hparts := congrArg List.length hsplit
        have hpos := List.length_pos_iff.mpr hne
        simp only [List.length_append, hlater, List.length_cons] at hwhole hparts
        omega
      obtain ⟨more, hmore⟩ := ih rest.length hshorter rest rfl
      refine ⟨word :: more, ?_⟩
      rw [← htext, hlater, ← hsplit]
      exact .word hgap hne hword hend hmore

theorem cut_words (text : List Char) : Cut text (words text) := by
  obtain ⟨cut, hcut⟩ := exists_cut text
  rwa [hcut.words_eq]

/-- The words of a text are all its letters and digits. -/
theorem Cut.flatten_eq (h : Cut text cut) : cut.flatten = text.filter Char.isAlphanum := by
  induction h with
  | none hgap => simpa using hgap
  | @word gap word rest more hgap _ hword _ _ ih =>
    have hnone : gap.filter Char.isAlphanum = [] := by simpa using hgap
    have hall : word.filter Char.isAlphanum = word := List.filter_eq_self.mpr hword
    rw [List.filter_append, List.filter_append, hnone, hall, List.flatten_cons, ih, List.nil_append]

/-! Case -/

/-- The two texts are the same but for the case of letters. -/
def SameButCase (a b : List Char) : Prop :=
  a.map Char.toLower = b.map Char.toLower

theorem sameButCase_styleWord (initialisms : Initialisms) (word : List Char) :
    SameButCase (styleWord initialisms word) word := by
  unfold SameButCase styleWord
  split
  · rw [List.map_map]
    exact List.map_congr_left fun c _ => Char.toLower_toUpper_eq_toLower c
  · cases word <;> simp [capitalize]

theorem sameButCase_flatMap (initialisms : Initialisms) (cut : List (List Char)) :
    SameButCase (cut.flatMap (styleWord initialisms)) cut.flatten := by
  unfold SameButCase
  induction cut with
  | nil => rfl
  | cons word more ih =>
    have hword : _ = _ := sameButCase_styleWord initialisms word
    rw [List.flatMap_cons, List.flatten_cons, List.map_append, List.map_append, hword, ih]

theorem isDigit_toLower (c : Char) : c.toLower.isDigit = c.isDigit := by
  by_cases hupper : c.isUpper
  · have hlower : c.toLower.isLower := by simp [Char.isAlpha, hupper]
    have hnine : '9'.val.toNat = 57 := rfl
    simp only [Char.isUpper, Char.isLower, Bool.and_eq_true, decide_eq_true_eq, ge_iff_le,
      UInt32.le_iff_toNat_le] at hupper hlower
    rw [Bool.eq_iff_iff]
    simp only [Char.isDigit, Bool.and_eq_true, decide_eq_true_eq, ge_iff_le,
      UInt32.le_iff_toNat_le]
    have hA : 'A'.val.toNat = 65 := rfl
    have ha : 'a'.val.toNat = 97 := rfl
    omega
  · rw [Char.toLower_eq_of_not_isUpper hupper]

/-- Texts that are the same but for case begin with a digit both or neither. -/
theorem SameButCase.isDigit_eq {a b : Char} {as bs : List Char}
    (h : SameButCase (a :: as) (b :: bs)) : a.isDigit = b.isDigit := by
  have hfirst : a.toLower = b.toLower := List.head_eq_of_cons_eq h
  rw [← isDigit_toLower a, ← isDigit_toLower b, hfirst]

/-! The law -/

/-- The identifier spells the letters and digits: it has all of them in their order, up to case,
behind a marker just if the first one is a digit. If there are none, it says so. -/
def Spells (identifier : String) (letters : List Char) : Prop :=
  match letters with
  | [] => identifier = "Unknown"
  | first :: _ => ∃ text : String, identifier = (if first.isDigit then "Num" else "") ++ text ∧
      SameButCase text.toList letters

theorem spells_ofKey (initialisms : Initialisms) {key : String} (hkey : key ≠ ".") :
    Spells (ofKey initialisms key) (key.toList.filter Char.isAlphanum) := by
  have hsame := sameButCase_flatMap initialisms (words key.toList)
  rw [(cut_words key.toList).flatten_eq] at hsame
  rw [ofKey, if_neg hkey]
  generalize key.toList.filter Char.isAlphanum = letters at hsame
  generalize (words key.toList).flatMap (styleWord initialisms) = styled at hsame
  cases letters with
  | nil =>
    obtain rfl : styled = [] := List.map_eq_nil_iff.mp hsame
    rfl
  | cons first letters =>
    cases styled with
    | nil => exact absurd hsame (by simp [SameButCase])
    | cons c text =>
      refine ⟨String.ofList (c :: text), ?_, by rwa [String.toList_ofList]⟩
      dsimp only
      rw [hsame.isDigit_eq]
      split
      · rfl
      · rw [String.empty_append]

theorem ofKey_eq_of_cut (initialisms : Initialisms) {key other : String} (hkey : key ≠ ".")
    (hother : other ≠ ".") (h : Cut key.toList cut) (h' : Cut other.toList cut) :
    ofKey initialisms other = ofKey initialisms key := by
  rw [ofKey, ofKey, if_neg hkey, if_neg hother, h.words_eq, h'.words_eq]

/-- Whatever the key and the initialisms, the identifier is a capital with letters and digits behind
it. Unless the key is a single point, it spells the letters and digits of the key, and it is that of
every key with the same words. -/
theorem ofKey_lawful (initialisms : Initialisms) (key : String) :
    Proper (ofKey initialisms key) ∧
      (key ≠ "." → Spells (ofKey initialisms key) (key.toList.filter Char.isAlphanum) ∧
        ∃ cut, Cut key.toList cut ∧ ∀ other : String, other ≠ "." → Cut other.toList cut →
          ofKey initialisms other = ofKey initialisms key) := by
  have hcut := cut_words key.toList
  exact ⟨proper_ofKey initialisms key, fun hkey => ⟨spells_ofKey initialisms hkey, _, hcut,
    fun _ hother h => ofKey_eq_of_cut initialisms hkey hother hcut h⟩⟩

/-- A key that begins with a digit, with a letter outside ASCII and a word that is an initialism. -/
theorem ofKey_lawful_of_digit :
    let initialisms := Initialisms.withExtra ["2fa"]
    let key := "2fa-c\u00F6de"
    key ≠ "." ∧ ofKey initialisms key = "Num2FACDe" ∧
      Spells (ofKey initialisms key) (key.toList.filter Char.isAlphanum) ∧
      ofKey initialisms "/2fa c  de" = ofKey initialisms key := by
  intro initialisms key
  have hkey : key ≠ "." := by decide
  obtain ⟨hspells, cut, hcut, hsame⟩ := (ofKey_lawful initialisms key).2 hkey
  have hcut' : Cut "/2fa c  de".toList cut := by
    have hwords : words "/2fa c  de".toList = words key.toList := by decide +kernel
    rw [← hcut.words_eq, ← hwords]
    exact cut_words _
  exact ⟨hkey, by decide +kernel, hspells, hsame _ (by decide) hcut'⟩

end Exemplar.Identifier
