import Exemplar.Declaration
import Exemplar.Proofs.Freshness
import Exemplar.Proofs.Literals
import Exemplar.Proofs.Values

/-!
# The text of a value in a comment

A comment ends with its line, so the text of a value in it must not begin a new one, whatever the
value holds. Numbers are digits, signs and points, strings are quoted, and arrays put commas between
the texts of their elements.
-/

namespace Exemplar

open Text

/-! Numbers -/

theorem oneLine_of_isDigit {text : List Char} (h : ∀ c ∈ text, c.isDigit) : oneLine text :=
  oneLine_of_forall (by decide) h

theorem oneLine_toString_nat (n : Nat) : oneLine (toString n).toList :=
  oneLine_of_isDigit fun _ hc => Fresh.isDigit_of_mem_toString hc

theorem oneLine_toString_int : ∀ n : Int, oneLine (toString n).toList
  | .ofNat n => oneLine_toString_nat n
  | .negSucc n => by
    change oneLine ("-" ++ toString n.succ).toList
    rw [String.toList_append, oneLine_append, oneLine_toString_nat]
    rfl

theorem BigDecimal.oneLine_text (x : BigDecimal) : oneLine x.text.toList := by
  change oneLine (toString x.coefficient ++ "e" ++ toString x.exponent).toList
  rw [String.toList_append, String.toList_append, oneLine_append, oneLine_append,
    oneLine_toString_int, oneLine_toString_int]
  rfl

namespace Binary64

theorem oneLine_toDigits (n : Nat) : oneLine (Nat.toDigits 10 n) :=
  oneLine_of_isDigit fun _ hc => Nat.isDigit_of_mem_toDigits (by decide) (by decide) hc

theorem oneLine_zeros (n : Nat) : oneLine (List.replicate n '0') :=
  oneLine_of_isDigit fun c hc => by
    obtain rfl := List.eq_of_mem_replicate hc
    rfl

theorem oneLine_positional (digits : Nat) (grid : Int) : oneLine (positional digits grid) := by
  rw [positional]
  split
  · rw [oneLine_append, oneLine_toDigits, oneLine_zeros]
    rfl
  · dsimp only
    generalize hpadded : List.replicate _ '0' ++ Nat.toDigits 10 digits = padded
    have hline : oneLine padded := by
      rw [← hpadded, oneLine_append, oneLine_toDigits, oneLine_zeros]
      rfl
    rw [oneLine_append, oneLine_cons, oneLine_of_subset (List.take_subset _ _) hline,
      oneLine_of_subset (List.drop_subset _ _) hline]
    rfl

theorem oneLine_text (x : Binary64) : oneLine x.text.toList := by
  have hsign : oneLine (if x.negative then ['-'] else []) := by
    cases x.negative <;> rfl
  rw [text]
  dsimp only
  split
  · split
    · rw [String.toList_ofList, oneLine_append, hsign]
      rfl
    · rw [String.toList_ofList, oneLine_append, hsign, oneLine_positional]
      rfl
  · split
    · rw [String.toList_ofList, oneLine_append, hsign]
      rfl
    · decide

end Binary64

/-! Values -/

namespace Value

theorem commentTexts_eq (elements : List Value) :
    commentTexts elements = elements.map commentText := by
  induction elements with
  | nil => rfl
  | cons v elements ih => rw [commentTexts, ih, List.map_cons]

theorem commentText_array (elements : List Value) :
    (array elements).commentText =
      "[" ++ ", ".intercalate (elements.map commentText) ++ "]" := by
  rw [commentText, commentTexts_eq]

/-- The text of a value in a comment stays on one line. -/
theorem oneLine_commentText (v : Value) : oneLine v.commentText.toList := by
  induction v using Value.induct with
  | hobject members _ =>
    change oneLine "object".toList
    decide
  | harray elements ih =>
    have hseparator : oneLine ", ".toList := by decide
    have helements : ∀ text ∈ (elements.map commentText).map String.toList, oneLine text :=
      List.forall_mem_map.mpr (List.forall_mem_map.mpr ih)
    rw [commentText_array, String.toList_append, String.toList_append,
      String.toList_intercalate, oneLine_append, oneLine_append,
      oneLine_intercalate hseparator helements]
    rfl
  | hscalar v hscalar =>
    cases v with
    | null => decide
    | boolean value => cases value <;> decide
    | integer n => exact oneLine_toString_int n
    | float x =>
      rw [commentText]
      split
      · exact oneLine_toString_int _
      · exact x.oneLine_text
    | decimal x => exact x.oneLine_text
    | string text => exact oneLine_quote text
    | object _ | array _ => contradiction

end Value

end Exemplar
