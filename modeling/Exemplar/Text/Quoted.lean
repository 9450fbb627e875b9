import Exemplar.Text.GraphemeExtend
import Exemplar.Text.Unprintable

/-!
# Quoted text

Text in messages, comments and attributes stands between quotes, on one line, and can be read
back: the quote and the backslash are escaped, the usual blanks have letters of their own, and
every character that would not be visible by itself is written by its code point.
-/

namespace Exemplar.Text

/-- Whether a code point lies in one of the ranges. -/
def inRanges (ranges : List (Nat × Nat)) (code : Nat) : Bool :=
  ranges.any fun range => range.1 ≤ code && code ≤ range.2

/-- The fillers of Korean syllables. They are letters, but nothing is drawn for them. -/
def hangulFillers : List Char := ['\u115f', '\u1160', '\u3164', '\uffa0']

/-- The halfwidth marks of voiced Japanese syllables. They extend the character before them, but
are drawn in a cell of their own. -/
def halfwidthSoundMarks : List Char := ['\uff9e', '\uff9f']

/-- Whether a character is drawn as part of its neighbour. -/
def attaches (c : Char) : Bool :=
  inRanges graphemeExtendRanges c.toNat && !halfwidthSoundMarks.contains c

/-- Whether a character shows by itself: something is drawn for it, and not as part of its
neighbour. The printable part of ASCII needs no look at the tables. -/
def isVisible (c : Char) : Bool :=
  (32 ≤ c.toNat && c.toNat < 127) ||
    !(inRanges unprintableRanges c.toNat || hangulFillers.contains c || attaches c)

/-- A code point in lower-case hexadecimal digits without leading zeros. -/
def hexDigits (code : Nat) : List Char :=
  Nat.toDigits 16 code

/-- The written form of one character between quotes of the given kind. -/
def escapeChar (quoteMark : Char) (c : Char) : List Char :=
  if c = '\x00' then ['\\', '0']
  else if c = '\t' then ['\\', 't']
  else if c = '\n' then ['\\', 'n']
  else if c = '\r' then ['\\', 'r']
  else if c = '\\' ∨ c = quoteMark then ['\\', c]
  else if isVisible c then [c]
  else ['\\', 'u', '\x7b'] ++ hexDigits c.toNat ++ ['\x7d']

def quote (text : String) : String :=
  String.ofList ('"' :: text.toList.flatMap (escapeChar '"') ++ ['"'])

def quoteChar (c : Char) : String :=
  String.ofList ('\'' :: escapeChar '\'' c ++ ['\''])

end Exemplar.Text
