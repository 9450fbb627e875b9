import Exemplar.Position
import Exemplar.Token

/-!
# Why a document cannot be read

A text is refused for one defect at one place; a stream may also fail to deliver its bytes.
The wording of every refusal is in `ReadError.message` and nowhere else.
-/

namespace Exemplar

/-- What could have come next at the place of an error. -/
inductive Expectation where
  | value
  | objectKey
  | colon
  | commaOrBrace
  | commaOrBracket
  | literal
  | closingQuote
  deriving DecidableEq

def Expectation.describe : Expectation → String
  | .value => "a value"
  | .objectKey => "an object key"
  | .colon => "':'"
  | .commaOrBrace => "',' or '\x7d'"
  | .commaOrBracket => "',' or ']'"
  | .literal => "literal"
  | .closingQuote => "closing '\"'"

/-- What is wrong with a text at some place. -/
inductive Defect where
  /-- A token that cannot stand here. -/
  | unexpectedToken (found : Token) (expected : Expectation)
  /-- A value that is no string where a key must stand. -/
  | nonStringKey (found : Token)
  /-- The text ends too early. -/
  | unexpectedEnd (expected : Expectation)
  /-- A byte, shown as the character of that code, that begins or continues no token. -/
  | invalidCharacter (found : Char)
  /-- A number literal that breaks off. -/
  | invalidNumber (literal : String)
  /-- A backslash that begins no escape sequence. -/
  | invalidEscape
  /-- A string whose bytes are not UTF-8. -/
  | invalidUtf8
  /-- A control byte inside a string. -/
  | controlCharacter (byte : UInt8)
  /-- A container below the deepest level allowed. -/
  | nestingTooDeep (depth limit : Nat)
  deriving DecidableEq

/-- Why reading stopped. -/
inductive ReadError where
  | malformed (defect : Defect) (position : Position)
  /-- The stream failed with the given reason. -/
  | unreadable (reason : String)
  deriving DecidableEq

namespace Defect

private def twoHexDigits (byte : UInt8) : String :=
  String.ofList [(byte.toNat / 16).digitChar, (byte.toNat % 16).digitChar]

def message (defect : Defect) (position : Position) : String :=
  let place := position.describe
  match defect with
  | unexpectedToken found expected =>
    s!"unexpected {found.describe} at {place}, expecting {expected.describe}"
  | nonStringKey found => s!"object keys must be strings, found {found.describe} at {place}"
  | unexpectedEnd expected =>
    s!"unexpected end of input at {place}, expecting {expected.describe}"
  | invalidCharacter found => s!"invalid character {Text.quoteChar found} at {place}"
  | invalidNumber literal => s!"malformed number {Text.quote literal} at {place}"
  | invalidEscape => s!"invalid escape sequence in string at {place}"
  | invalidUtf8 => s!"invalid UTF-8 in string at {place}"
  | controlCharacter byte =>
    s!"unescaped control character 0x{twoHexDigits byte} in string at {place}"
  | nestingTooDeep depth limit => s!"nesting depth {depth} exceeds limit {limit} at {place}"

end Defect

namespace ReadError

def message : ReadError → String
  | malformed defect position => defect.message position
  | unreadable reason => s!"failed to read input: {reason}"

/-- The place of an error; a failing stream has none. -/
def position? : ReadError → Option Position
  | malformed _ position => some position
  | unreadable _ => none

end ReadError

end Exemplar
