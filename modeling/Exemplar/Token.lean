import Exemplar.Text.Quoted

/-!
# Tokens

The lexical units of a document. A string token holds the decoded text, a number token the
literal as written, so that its precision can be decided later.
-/

namespace Exemplar

/-- One lexical unit. The end of the input is not a token. -/
inductive Token where
  | leftBrace
  | rightBrace
  | leftBracket
  | rightBracket
  | colon
  | comma
  | null
  | boolean (value : Bool)
  | string (text : String)
  | number (literal : String)
  deriving DecidableEq

namespace Token

def startsValue : Token → Bool
  | rightBrace | rightBracket | colon | comma => false
  | _ => true

def describe : Token → String
  | leftBrace => "'\x7b'"
  | rightBrace => "'\x7d'"
  | leftBracket => "'['"
  | rightBracket => "']'"
  | colon => "':'"
  | comma => "','"
  | null => "null"
  | boolean true => "true"
  | boolean false => "false"
  | string text => "string " ++ Text.quote text
  | number literal => "number " ++ literal

end Token

end Exemplar
