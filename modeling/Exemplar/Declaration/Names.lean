import Exemplar.Fresh
import Exemplar.Identifier

/-!
# Names in generated code

Type names are unique in the whole output: a record whose name is taken is named after its parent
as well, and gets a number if that name is taken too. Field names are unique in their struct; a
keyword becomes a raw identifier where the language allows it, and gets an underscore elsewhere.
-/

namespace Exemplar

abbrev TakenNames := List String

/-- Claims a type name for a record: its own name, or that name after the name of its parent, or
the latter with a number. -/
def claimTypeName (taken : TakenNames) (base parent : String) : String × TakenNames :=
  let chosen :=
    if !taken.contains base then base
    else if !taken.contains (parent ++ base) then parent ++ base
    else Fresh.numbered taken fun n => parent ++ base ++ toString n
  (chosen, chosen :: taken)

namespace FieldName

def keywords : List String := [
  "abstract", "as", "async", "await", "become", "box", "break", "const", "continue", "do", "dyn",
  "else", "enum", "extern", "false", "final", "fn", "for", "gen", "if", "impl", "in", "let",
  "loop", "macro", "match", "mod", "move", "mut", "override", "priv", "pub", "ref", "return",
  "static", "struct", "trait", "true", "try", "type", "typeof", "unsafe", "unsized", "use",
  "virtual", "where", "while", "yield"]

def reserved : List String := ["crate", "self", "super"]

/-- The name of a field with a given identifier, before it is made unique. -/
def ofIdentifier (identifier : String) : String :=
  let name := Identifier.snakeCase identifier
  if reserved.contains name then name ++ "_"
  else if keywords.contains name then "r#" ++ name
  else name

/-- A text without the marks of raw identifiers in front of it. -/
def bareChars : List Char → List Char
  | 'r' :: '#' :: text => bareChars text
  | text => text

def bare (name : String) : String :=
  String.ofList (bareChars name.toList)

/-- The name of a field in a struct in which some names are taken. -/
def unique (taken : List String) (identifier : String) : String :=
  let base := ofIdentifier identifier
  if taken.contains base then Fresh.numbered taken fun n => bare base ++ "_" ++ toString n
  else base

end FieldName

end Exemplar
