/-!
# JSON text

A tree of text, truth values, arrays and objects, and its layout on several lines: two blanks of
indentation for each level, one element or member on a line, and nothing between the brackets of
an empty container.
-/

namespace Exemplar

/-- What is written as JSON. -/
inductive Json where
  | boolean (value : Bool)
  | string (text : String)
  | array (elements : List Json)
  | object (members : List (String × Json))

namespace Json

/-- The written form of a character inside a string. Quotes, backslashes and control characters
are escaped and nothing else. -/
def escapeChar (c : Char) : List Char :=
  match c with
  | '"' => ['\\', '"']
  | '\\' => ['\\', '\\']
  | '\x08' => ['\\', 'b']
  | '\x0c' => ['\\', 'f']
  | '\n' => ['\\', 'n']
  | '\r' => ['\\', 'r']
  | '\t' => ['\\', 't']
  | c =>
    if c.toNat < 32 then
      ['\\', 'u', '0', '0', (c.toNat / 16).digitChar, (c.toNat % 16).digitChar]
    else [c]

def quote (text : String) : String :=
  String.ofList ('"' :: text.toList.flatMap escapeChar ++ ['"'])

def newline (level : Nat) : String :=
  String.ofList ('\n' :: List.replicate (2 * level) ' ')

mutual

/-- The layout of a tree that starts on a line of the given level. -/
def layout (level : Nat) : Json → String
  | boolean true => "true"
  | boolean false => "false"
  | string text => quote text
  | array [] => "[]"
  | array (first :: rest) =>
    "[" ++ newline (level + 1) ++ first.layout (level + 1) ++ layoutElements (level + 1) rest ++
      newline level ++ "]"
  | object [] => "\x7b\x7d"
  | object ((key, value) :: rest) =>
    "\x7b" ++ newline (level + 1) ++ quote key ++ ": " ++ value.layout (level + 1) ++
      layoutMembers (level + 1) rest ++ newline level ++ "\x7d"

/-- The elements after the first one, each on a line of its own. -/
def layoutElements (level : Nat) : List Json → String
  | [] => ""
  | value :: rest => "," ++ newline level ++ value.layout level ++ layoutElements level rest

/-- The members after the first one, each on a line of its own. -/
def layoutMembers (level : Nat) : List (String × Json) → String
  | [] => ""
  | (key, value) :: rest =>
    "," ++ newline level ++ quote key ++ ": " ++ value.layout level ++ layoutMembers level rest

end

def pretty (json : Json) : String := json.layout 0

end Json

end Exemplar
