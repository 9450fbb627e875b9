/-!
# Number literals

A number literal is an optional sign, a whole part without superfluous zeros, an optional
fraction and an optional exponent. Splitting a literal into these parts loses only the way the
exponent is spelled; the value it denotes is `± coefficient · 10 ^ scale`, exactly.
-/

namespace Exemplar

/-- The parts of a number literal; digits are kept as written. -/
structure NumberLiteral where
  negative : Bool
  whole : List Char
  fraction : Option (List Char)
  /-- Whether the exponent is negative, and its digits. -/
  exponent : Option (Bool × List Char)
  deriving DecidableEq

namespace NumberLiteral

def readDigits? (text : List Char) : Option (List Char × List Char) :=
  match text.span Char.isDigit with
  | ([], _) => none
  | split => some split

/-- Splits off the whole part: a single zero, or digits of which the first is not zero. -/
def readWhole? : List Char → Option (List Char × List Char)
  | '0' :: text => some (['0'], text)
  | text => readDigits? text

/-- Splits off the fraction, if a point begins one. -/
def readFraction? : List Char → Option (Option (List Char) × List Char)
  | '.' :: text => (readDigits? text).map fun (digits, rest) => (some digits, rest)
  | text => some (none, text)

def readExponentSign : List Char → Bool × List Char
  | '-' :: text => (true, text)
  | '+' :: text => (false, text)
  | text => (false, text)

/-- Splits off the exponent, if a mark begins one. -/
def readExponent? : List Char → Option (Option (Bool × List Char) × List Char)
  | c :: text =>
    if c = 'e' ∨ c = 'E' then
      let (negative, text) := readExponentSign text
      (readDigits? text).map fun (digits, rest) => (some (negative, digits), rest)
    else some (none, c :: text)
  | [] => some (none, [])

def readSign : List Char → Bool × List Char
  | '-' :: text => (true, text)
  | text => (false, text)

/-- The parts of a text, if the whole text is a number literal. -/
def ofChars? (text : List Char) : Option NumberLiteral := do
  let (negative, text) := readSign text
  let (whole, text) ← readWhole? text
  let (fraction, text) ← readFraction? text
  let (exponent, text) ← readExponent? text
  if text.isEmpty then some ⟨negative, whole, fraction, exponent⟩ else none

/-- The parts of a string, if all of it is a number literal. -/
def ofString? (text : String) : Option NumberLiteral :=
  ofChars? text.toList

/-- The natural number that a run of decimal digits denotes. -/
def digitsValue (digits : List Char) : Nat :=
  digits.foldl (fun value digit => value * 10 + (digit.toNat - '0'.toNat)) 0

/-- Whether the literal is written without a fraction and without an exponent. -/
def isWhole (literal : NumberLiteral) : Bool :=
  literal.fraction.isNone && literal.exponent.isNone

/-- All digits of the literal before its exponent, read as one number. -/
def coefficient (literal : NumberLiteral) : Nat :=
  digitsValue (literal.whole ++ literal.fraction.getD [])

/-- The power of ten that the coefficient is multiplied with. -/
def scale (literal : NumberLiteral) : Int :=
  let exponent : Int :=
    match literal.exponent with
    | none => 0
    | some (false, digits) => digitsValue digits
    | some (true, digits) => -digitsValue digits
  exponent - (literal.fraction.getD []).length

def signedCoefficient (literal : NumberLiteral) : Int :=
  if literal.negative then -literal.coefficient else literal.coefficient

end NumberLiteral

end Exemplar
