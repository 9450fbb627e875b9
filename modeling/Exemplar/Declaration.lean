import Exemplar.Declaration.Names
import Exemplar.Number.Integral
import Exemplar.Value

/-!
# Declarations

The generated code is a list of type declarations. A declaration says everything that is decided
about a type; its text only depends on whether attributes and comments are wanted.
-/

namespace Exemplar

/-- The type of a field. -/
inductive FieldType where
  /-- Any JSON value. -/
  | json
  | boolean
  | integer
  | float
  /-- A number of any size. -/
  | number
  | string
  | vector (element : FieldType)
  /-- A type of the generated code. -/
  | declared (name : String)

def FieldType.text : FieldType → String
  | json => "serde_json::Value"
  | boolean => "bool"
  | integer => "i64"
  | float => "f64"
  | number => "serde_json::Number"
  | string => "String"
  | vector element => "Vec<" ++ element.text ++ ">"
  | declared name => name

/-- A field of a struct. -/
structure FieldDeclaration where
  sourceKey : String
  name : String
  type : FieldType
  optional : Bool
  /-- A value that illustrates the field. -/
  sample : Option Value

/-- The declaration of a type. -/
inductive Declaration where
  | struct (name : String) (fields : List FieldDeclaration)
  | synonym (name : String) (type : FieldType)

/-- What the generated code looks like. -/
structure RenderOptions where
  /-- Fields in alphabetical order instead of the order in which they were seen. -/
  sortFields : Bool := false
  /-- A comment with a sample after each field that has one. -/
  valueComments : Bool := false
  /-- Derives and attributes for reading and writing the data. -/
  deriveSerde : Bool := true

namespace Value

mutual

/-- The text of a value in a comment. Floating-point numbers that are integers are written as
integers. -/
def commentText : Value → String
  | float x =>
    match x.int64? with
    | some n => toString n
    | none => x.text
  | array elements => "[" ++ ", ".intercalate (commentTexts elements) ++ "]"
  | value => value.text

/-- The texts of the elements of an array in a comment. -/
def commentTexts : List Value → List String
  | [] => []
  | value :: rest => value.commentText :: commentTexts rest

end

end Value

namespace FieldDeclaration

/-- The attributes of a field: its key where the name does not say it, and how a missing value is
treated. -/
def attributes (f : FieldDeclaration) : List String :=
  (if FieldName.bare f.name = f.sourceKey then [] else ["rename = " ++ Text.quote f.sourceKey]) ++
    (if f.optional then ["default", "skip_serializing_if = \"Option::is_none\""] else [])

def attributeLine (f : FieldDeclaration) : String :=
  match f.attributes with
  | [] => ""
  | attributes => "    #[serde(" ++ ", ".intercalate attributes ++ ")]\n"

/-- The line of the field without comment and line break. -/
def declarationText (f : FieldDeclaration) : String :=
  let type := if f.optional then "Option<" ++ f.type.text ++ ">" else f.type.text
  "    pub " ++ f.name ++ ": " ++ type ++ ","

def commentText (f : FieldDeclaration) : String :=
  match f.sample with
  | some sample => " // Ex: " ++ sample.commentText
  | none => ""

def text (options : RenderOptions) (f : FieldDeclaration) : String :=
  (if options.deriveSerde then f.attributeLine else "") ++ f.declarationText ++
    (if options.valueComments then f.commentText else "") ++ "\n"

end FieldDeclaration

namespace Declaration

def name : Declaration → String
  | struct name _ | synonym name _ => name

def deriveLine (options : RenderOptions) : String :=
  if options.deriveSerde then "#[derive(Debug, Clone, PartialEq, Serialize, Deserialize)]\n"
  else "#[derive(Debug, Clone, PartialEq)]\n"

def text (options : RenderOptions) : Declaration → String
  | struct name fields =>
    deriveLine options ++ "pub struct " ++ name ++ " \x7b\n" ++
      String.join (fields.map (FieldDeclaration.text options)) ++ "\x7d\n"
  | synonym name type => "pub type " ++ name ++ " = " ++ type.text ++ ";\n"

/-- The line that brings the derived traits into scope. -/
def header : String := "use serde::\x7bDeserialize, Serialize\x7d;\n"

/-- The whole text: the header if it is needed, then the declarations, with an empty line
between. -/
def fileText (options : RenderOptions) (declarations : List Declaration) : String :=
  let blocks := declarations.map (text options)
  "\n".intercalate (if options.deriveSerde then header :: blocks else blocks)

end Declaration

end Exemplar
