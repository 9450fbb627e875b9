import Exemplar.Rendering

/-!
# The generated code in lines

What stands in the generated code, line by line. A field is a line, below the line of its attributes
if it has any; a declaration is a block of lines, and between two blocks there is an empty line. The
text of the renderer is made of such blocks, one for each declaration.
-/

namespace Exemplar

/-- Lines as one text, each with a line break at its end. -/
def Text.unlines (lines : List String) : List Char :=
  lines.flatMap fun line => line.toList ++ ['\n']

@[simp]
theorem Text.unlines_nil : unlines [] = [] := rfl

@[simp]
theorem Text.unlines_cons (line : String) (lines : List String) :
    unlines (line :: lines) = line.toList ++ '\n' :: unlines lines := by
  rw [unlines, List.flatMap_cons, List.append_assoc]
  rfl

@[simp]
theorem Text.unlines_append (lines more : List String) :
    unlines (lines ++ more) = unlines lines ++ unlines more :=
  List.flatMap_append

/-- Blocks of lines with an empty line between them. -/
theorem Text.unlines_intercalate (blocks : List (List String)) :
    unlines ([""].intercalate blocks) = ['\n'].intercalate (blocks.map unlines) := by
  induction blocks with
  | nil => rfl
  | cons block blocks ih =>
    cases blocks with
    | nil => simp
    | cons next blocks =>
      have hseparator : unlines [""] = ['\n'] := rfl
      rw [List.intercalate_cons_cons, unlines_append, unlines_append, ih, hseparator, List.map_cons,
        List.map_cons, List.map_cons, List.intercalate_cons_cons]

/-! Types -/

/-- The text of a type: a name in the brackets of vectors. -/
def vectorText (depth : Nat) (name : String) : String :=
  String.join (List.replicate depth "Vec<") ++ name ++ String.join (List.replicate depth ">")

theorem vectorText_succ (depth : Nat) (name : String) :
    vectorText (depth + 1) name = "Vec<" ++ vectorText depth name ++ ">" := by
  rw [vectorText, vectorText, List.replicate_succ, List.replicate_succ', String.join_cons,
    String.join_append]
  simp [String.append_assoc]

/-- The types that are named in the generated code without being declared there. -/
def standardTypes : List String :=
  ["serde_json::Value", "bool", "i64", "f64", "serde_json::Number", "String"]

/-- The declared types that a type mentions. -/
def FieldType.mentions : FieldType → List String
  | .vector element => element.mentions
  | .declared name => [name]
  | .json | .boolean | .integer | .float | .number | .string => []

/-- In the text of a type that mentions one name, only the brackets of vectors are around it. -/
theorem FieldType.text_of_mentions {name : String} : ∀ {type : FieldType},
    type.mentions = [name] → ∃ depth, type.text = vectorText depth name
  | .declared own, h => by
    obtain rfl : own = name := List.head_eq_of_cons_eq h
    exact ⟨0, by simp [FieldType.text, vectorText]⟩
  | .vector element, h => by
    obtain ⟨depth, htext⟩ : ∃ depth, element.text = _ := FieldType.text_of_mentions h
    exact ⟨depth + 1, by rw [FieldType.text, htext, vectorText_succ]⟩

/-- In the text of a type that mentions none, there is a standard name. -/
theorem FieldType.text_of_mentions_nil : ∀ {type : FieldType}, type.mentions = [] →
    ∃ depth, ∃ name ∈ standardTypes, type.text = vectorText depth name
  | .vector element, h => by
    obtain ⟨depth, name, hname, htext⟩ : ∃ depth, ∃ name ∈ standardTypes, element.text = _ :=
      FieldType.text_of_mentions_nil h
    exact ⟨depth + 1, name, hname, by rw [FieldType.text, htext, vectorText_succ]⟩
  | .json, _ => ⟨0, "serde_json::Value", by decide, by decide⟩
  | .boolean, _ => ⟨0, "bool", by decide, by decide⟩
  | .integer, _ => ⟨0, "i64", by decide, by decide⟩
  | .float, _ => ⟨0, "f64", by decide, by decide⟩
  | .number, _ => ⟨0, "serde_json::Number", by decide, by decide⟩
  | .string, _ => ⟨0, "String", by decide, by decide⟩

/-! Fields -/

/-- What is read of a field: the lines of its attributes, its name, the text of its type, and what
stands behind it. -/
structure PrintedField where
  attributes : List String
  name : String
  type : String
  comment : String

/-- The lines of a field. -/
def PrintedField.lines (p : PrintedField) : List String :=
  p.attributes ++ ["    pub " ++ p.name ++ ": " ++ p.type ++ "," ++ p.comment]

/-- The line of the attributes of a field, if it has any: its key where the name does not say it,
and how a missing value is treated. -/
def attributeLines (name key : String) (optional : Bool) : List String :=
  if FieldName.bare name = key then
    if optional then ["    #[serde(default, skip_serializing_if = \"Option::is_none\")]"] else []
  else
    if optional then
      ["    #[serde(rename = " ++ Text.quote key ++
        ", default, skip_serializing_if = \"Option::is_none\")]"]
    else ["    #[serde(rename = " ++ Text.quote key ++ ")]"]

def optionText (optional : Bool) (type : String) : String :=
  if optional then "Option<" ++ type ++ ">" else type

/-- The comment that shows a sample. -/
def sampleComment : Option Value → String
  | some sample => " // Ex: " ++ sample.commentText
  | none => ""

/-- The lines of a field are those of a field of a record. The type is left open. -/
structure PrintedField.Shows (options : RenderOptions) (p : PrintedField) (f : Field) : Prop where
  name : ∃ used, p.name = FieldName.unique used f.identifier
  attributes : p.attributes =
    if options.deriveSerde then attributeLines p.name f.sourceKey f.optional else []
  comment : p.comment = if options.valueComments then sampleComment f.sample else ""

namespace FieldDeclaration

variable (options : RenderOptions) (f : FieldDeclaration)

/-- What is read of a field that has been declared. -/
def printed : PrintedField where
  attributes := if options.deriveSerde then attributeLines f.name f.sourceKey f.optional else []
  name := f.name
  type := optionText f.optional f.type.text
  comment := if options.valueComments then sampleComment f.sample else ""

theorem toList_attributeLine : f.attributeLine.toList =
    Text.unlines (attributeLines f.name f.sourceKey f.optional) := by
  rw [attributeLine, attributes, attributeLines]
  by_cases hbare : FieldName.bare f.name = f.sourceKey
  · rw [if_pos hbare, if_pos hbare]
    cases f.optional <;> decide
  · rw [if_neg hbare, if_neg hbare]
    cases f.optional <;> simp [String.toList_append]

theorem toList_text :
    (f.text options).toList = Text.unlines (f.printed options).lines := by
  have hcomment : f.commentText = sampleComment f.sample := by
    rw [commentText]
    cases f.sample <;> rfl
  have hattributes : (if options.deriveSerde then f.attributeLine else "").toList =
      Text.unlines (f.printed options).attributes := by
    rw [printed]
    split
    · exact f.toList_attributeLine
    · rfl
  rw [text, declarationText, hcomment, PrintedField.lines, Text.unlines_append, ← hattributes]
  simp [printed, optionText, String.toList_append]

end FieldDeclaration

/-! Blocks -/

/-- What is read of a declaration. -/
inductive Block where
  | struct (name : String) (fields : List PrintedField)
  | synonym (name type : String)

namespace Block

def name : Block → String
  | struct name _ | synonym name _ => name

/-- The fields of a struct. -/
def fields? : Block → Option (List PrintedField)
  | struct _ fields => some fields
  | synonym _ _ => none

variable (options : RenderOptions)

/-- The lines of a declaration. -/
def lines : Block → List String
  | struct name fields =>
    [if options.deriveSerde then "#[derive(Debug, Clone, PartialEq, Serialize, Deserialize)]"
      else "#[derive(Debug, Clone, PartialEq)]",
      "pub struct " ++ name ++ " \x7b"] ++ fields.flatMap PrintedField.lines ++ ["\x7d"]
  | synonym name type => ["pub type " ++ name ++ " = " ++ type ++ ";"]

/-- The lines of the whole file: the import if it is needed, then the blocks, with an empty line
between them. -/
def fileLines (blocks : List Block) : List String :=
  [""].intercalate
    ((if options.deriveSerde then [["use serde::\x7bDeserialize, Serialize\x7d;"]] else []) ++
      blocks.map (lines options))

end Block

namespace Declaration

variable (options : RenderOptions)

/-- What is read of a declaration that has been made. -/
def block : Declaration → Block
  | struct name fields => .struct name (fields.map (FieldDeclaration.printed options))
  | synonym name type => .synonym name type.text

theorem name_block (d : Declaration) : (d.block options).name = d.name := by
  cases d <;> rfl

/-- The entries of a struct. -/
def entries? : Declaration → Option (List FieldDeclaration)
  | struct _ entries => some entries
  | synonym _ _ => none

theorem fields?_block (d : Declaration) :
    (d.block options).fields? = d.entries?.map (·.map (FieldDeclaration.printed options)) := by
  cases d <;> rfl

theorem toList_text (d : Declaration) :
    (d.text options).toList = Text.unlines ((d.block options).lines options) := by
  cases d with
  | struct name fields =>
    have hfields : (String.join (fields.map (FieldDeclaration.text options))).toList =
        Text.unlines ((fields.map (FieldDeclaration.printed options)).flatMap
          PrintedField.lines) := by
      rw [String.toList_join, List.flatMap_map, List.flatMap_map]
      induction fields with
      | nil => rfl
      | cons f fields ih =>
        rw [List.flatMap_cons, List.flatMap_cons, Text.unlines_append, ih, f.toList_text]
    rw [text, deriveLine, block, Block.lines]
    simp only [String.toList_append, Text.unlines_append, Text.unlines_cons, Text.unlines_nil,
      hfields]
    split <;> simp
  | synonym name type =>
    rw [text, block, Block.lines]
    simp [String.toList_append]

theorem toList_fileText (declarations : List Declaration) :
    (fileText options declarations).toList =
      Text.unlines (Block.fileLines options (declarations.map (block options))) := by
  have hblocks : (declarations.map (text options)).map String.toList =
      ((declarations.map (block options)).map (Block.lines options)).map Text.unlines := by
    rw [List.map_map, List.map_map, List.map_map]
    exact List.map_congr_left fun d _ => d.toList_text options
  have hheader : header.toList = Text.unlines ["use serde::\x7bDeserialize, Serialize\x7d;"] := rfl
  rw [Block.fileLines, Text.unlines_intercalate, List.map_append, ← hblocks, fileText,
    String.toList_intercalate]
  split
  · rw [List.map_cons, hheader]
    rfl
  · rfl

end Declaration

end Exemplar
