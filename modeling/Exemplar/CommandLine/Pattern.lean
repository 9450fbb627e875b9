/-!
# Patterns of file names

In a pattern, `?` stands for one character, `*` for any number of characters, and brackets for
one of the characters listed in them, or for any other one if the list begins with `!`. Two stars
stand for any number of directories and must fill a part of the path. Nothing escapes these.
-/

namespace Exemplar

/-- The characters that brackets list. -/
inductive PatternRange where
  | single (c : Char)
  | between (first last : Char)

/-- What a part of a pattern stands for. -/
inductive PatternItem where
  | char (c : Char)
  | anyChar
  | anyText
  | anyDirectories
  | oneOf (ranges : List PatternRange)
  | noneOf (ranges : List PatternRange)

/-- Why a text is no pattern. -/
inductive PatternDefect where
  /-- More than two stars in a row. -/
  | tooManyStars
  /-- Two stars with something else in the same part of the path. -/
  | starsInsidePart
  /-- Brackets that are not closed. -/
  | unclosedBracket
  deriving DecidableEq

/-- A defect and the count of characters before it. -/
structure PatternError where
  position : Nat
  defect : PatternDefect
  deriving DecidableEq

def PatternError.message (error : PatternError) : String :=
  let reason :=
    match error.defect with
    | .tooManyStars => "wildcards are either regular `*` or recursive `**`"
    | .starsInsidePart => "recursive wildcards must form a single path component"
    | .unclosedBracket => "invalid range pattern"
  s!"Pattern syntax error near position {error.position}: {reason}"

namespace PatternRange

/-- Whether a character belongs to what is listed; both ends of a range do. -/
def contains (c : Char) : PatternRange → Bool
  | single c' => c = c'
  | between first last => first ≤ c && c ≤ last

def ofChars : List Char → List PatternRange
  | first :: '-' :: last :: rest => between first last :: ofChars rest
  | c :: rest => single c :: ofChars rest
  | [] => []

end PatternRange

namespace PatternItem

/-- Whether an item stands for the single character given. -/
def accepts (c : Char) : PatternItem → Bool
  | char c' => c = c'
  | anyChar => true
  | oneOf ranges => ranges.any (·.contains c)
  | noneOf ranges => !ranges.any (·.contains c)
  | anyText | anyDirectories => false

def someEnd (test : List Char → Bool) : List Char → Bool
  | [] => test []
  | c :: rest => test (c :: rest) || someEnd test rest

def matchAll : List PatternItem → List Char → Bool
  | [], name => name.isEmpty
  | anyText :: items, name | anyDirectories :: items, name => someEnd (matchAll items) name
  | _ :: _, [] => false
  | item :: items, c :: name => item.accepts c && matchAll items name

end PatternItem

namespace Pattern

/-- The content of brackets, which holds at least one character, and what follows them. `text`
begins after the opening bracket and its `!`, if there is one. -/
def bracketContent? : List Char → Option (List Char × List Char)
  | [] => none
  | first :: text =>
    match text.dropWhile (· ≠ ']') with
    | [] => none
    | _ :: rest => some (first :: text.takeWhile (· ≠ ']'), rest)

/-- The item that an opening bracket begins, and what follows it. -/
def bracketItem? : List Char → Option (PatternItem × List Char)
  | '!' :: text => (bracketContent? text).map fun (content, rest) =>
      (.noneOf (PatternRange.ofChars content), rest)
  | text => (bracketContent? text).map fun (content, rest) =>
      (.oneOf (PatternRange.ofChars content), rest)

theorem length_bracketContent_lt {text content rest : List Char}
    (h : bracketContent? text = some (content, rest)) : rest.length < text.length := by
  unfold bracketContent? at h
  split at h
  · cases h
  · rename_i first text
    split at h
    · cases h
    · rename_i c after hdrop
      obtain ⟨-, rfl⟩ := Prod.mk.inj (Option.some.inj h)
      have hle := (List.dropWhile_sublist (l := text) (· ≠ ']')).length_le
      rw [hdrop] at hle
      simp only [List.length_cons] at hle ⊢
      omega

theorem length_bracketItem_lt {text rest : List Char} {item : PatternItem}
    (h : bracketItem? text = some (item, rest)) : rest.length < text.length := by
  unfold bracketItem? at h
  split at h
  · obtain ⟨⟨content, rest'⟩, hc, he⟩ := Option.map_eq_some_iff.1 h
    obtain ⟨-, rfl⟩ := Prod.mk.inj he
    exact Nat.lt_trans (length_bracketContent_lt hc) (Nat.lt_succ_self _)
  · obtain ⟨⟨content, rest'⟩, hc, he⟩ := Option.map_eq_some_iff.1 h
    obtain ⟨-, rfl⟩ := Prod.mk.inj he
    exact length_bracketContent_lt hc

/-- The items of a pattern from character `position` on. `partStart` says whether a part of the
path begins there. -/
def parseFrom (partStart : Bool) (position : Nat) :
    List Char → Except PatternError (List PatternItem)
  | [] => .ok []
  | '?' :: text => (PatternItem.anyChar :: ·) <$> parseFrom false (position + 1) text
  | '*' :: '*' :: '*' :: _ => .error ⟨position + 2, .tooManyStars⟩
  | '*' :: '*' :: text =>
    if partStart then
      match text with
      | [] => .ok [.anyDirectories]
      | '/' :: text => (PatternItem.anyDirectories :: ·) <$> parseFrom true (position + 3) text
      | _ => .error ⟨position + 2, .starsInsidePart⟩
    else .error ⟨position - 1, .starsInsidePart⟩
  | '*' :: text => (PatternItem.anyText :: ·) <$> parseFrom false (position + 1) text
  | '[' :: text =>
    match h : bracketItem? text with
    | none => .error ⟨position, .unclosedBracket⟩
    | some (item, rest) =>
      have := length_bracketItem_lt h
      (item :: ·) <$> parseFrom false (position + 1 + (text.length - rest.length)) rest
  | c :: text => (PatternItem.char c :: ·) <$> parseFrom (c = '/') (position + 1) text
termination_by text => text.length

def parse (text : String) : Except PatternError (List PatternItem) :=
  parseFrom true 0 text.toList

/-- The text that items stand for, if they stand for just one. -/
def literal? : List PatternItem → Option (List Char)
  | [] => some []
  | .char c :: items => (literal? items).map (c :: ·)
  | _ => none

/-- Whether items stand for directories of any number. -/
def isRecursive : List PatternItem → Bool
  | [.anyDirectories] => true
  | _ => false

end Pattern

end Exemplar
