import Exemplar.Proofs.InferredRoots
import Exemplar.Proofs.Literals
import Exemplar.Proofs.TypeNames

/-!
# The names of fields in the data

A field stands in the data under the name that its attribute gives, or else under its own name. The
reader below finds this name in the generated text alone, and it is the key from which the field was
inferred.
-/

namespace Exemplar

/-- A name without the mark of a raw identifier. -/
def unraw : List Char → List Char
  | 'r' :: '#' :: name => name
  | name => name

def renameMark : List Char := "    #[serde(rename = \"".toList

/-- The attributes of a field that may be missing and bears its own name. -/
def optionalLine : List Char :=
  "    #[serde(default, skip_serializing_if = \"Option::is_none\")]\n".toList

/-- The name that the text of a field gives it in the data. No other attributes are understood. -/
def wireName? (text : List Char) : Option String :=
  match text.dropPrefix? renameMark with
  | some literal => (Text.readLiteral .plain literal).map fun (name, _) => String.ofList name
  | none =>
    let line := (text.dropPrefix? optionalLine).getD text
    (line.dropPrefix? "    pub ".toList).map fun rest =>
      String.ofList (unraw (rest.takeWhile (· != ':')))

example : wireName? "    #[serde(rename = \"\\u\x7b2028\x7d'\")]\n    pub unknown: i64,\n".toList =
    some "\u2028'" := by
  decide +kernel

/-- The letters of a text in snake case are its own, those in upper case made lower, and the marks
between words. -/
theorem Identifier.forall_mem_snakeChars {P : Char → Prop} (hmark : P '_') {text : List Char}
    (h : ∀ c ∈ text, (c.isUpper → P c.toLower) ∧ (c.isUpper = false → P c))
    (previous : Option Char) : ∀ c ∈ Identifier.snakeChars previous text, P c := by
  induction text generalizing previous with
  | nil => exact fun c hc => absurd hc List.not_mem_nil
  | cons d text ih =>
    obtain ⟨⟨hupper, hother⟩, htext⟩ := List.forall_mem_cons.mp h
    have htail := ih htext (some d)
    rw [Identifier.snakeChars]
    split
    · rename_i hd
      have hlower : ∀ c ∈ d.toLower :: Identifier.snakeChars (some d) text, P c :=
        List.forall_mem_cons.mpr ⟨hupper hd, htail⟩
      split
      · exact List.forall_mem_cons.mpr ⟨hmark, hlower⟩
      · exact hlower
    · rename_i hd
      exact List.forall_mem_cons.mpr ⟨hother (Bool.eq_false_of_not_eq_true hd), htail⟩

namespace FieldName

/-- Whether a character may stand in a name, whatever stands before it. -/
def isWordChar (c : Char) : Bool :=
  c.isAlphanum || c == '_'

/-- A word, marked as raw identifier or not. -/
def IsName (name : List Char) : Prop :=
  ∃ word : List Char, (∀ c ∈ word, isWordChar c) ∧ (name = word ∨ name = 'r' :: '#' :: word)

theorem isWordChar_toLower {c : Char} (h : c.isUpper) : isWordChar c.toLower := by
  rw [isWordChar, Char.isAlphanum, Char.isAlpha_toLower_eq_isAlpha, Char.isAlpha, h]
  rfl

theorem isWordChar_snakeChars {text : List Char} (h : ∀ c ∈ text, c.isAlphanum)
    (previous : Option Char) : ∀ c ∈ Identifier.snakeChars previous text, isWordChar c := by
  have hmark : isWordChar '_' := rfl
  refine Identifier.forall_mem_snakeChars hmark ?_ previous
  intro c hc
  refine ⟨isWordChar_toLower, fun _ => ?_⟩
  rw [isWordChar, h c hc, Bool.true_or]

theorem bareChars_of_word {word : List Char} (h : ∀ c ∈ word, isWordChar c) :
    bareChars word = word := by
  rw [bareChars.eq_def]
  split
  · exact absurd (h '#' (by simp)) (by decide)
  · rfl

theorem unraw_of_word {word : List Char} (h : ∀ c ∈ word, isWordChar c) : unraw word = word := by
  rw [unraw.eq_def]
  split
  · exact absurd (h '#' (by simp)) (by decide)
  · rfl

/-- The marks of raw identifiers are never repeated. -/
theorem bareChars_of_isName {name : List Char} (h : IsName name) : bareChars name = unraw name := by
  obtain ⟨word, hword, rfl | rfl⟩ := h
  · rw [bareChars_of_word hword, unraw_of_word hword]
  · rw [bareChars, bareChars_of_word hword, unraw]

theorem isWordChar_bareChars {name : List Char} (h : IsName name) :
    ∀ c ∈ bareChars name, isWordChar c := by
  obtain ⟨word, hword, rfl | rfl⟩ := h
  · rwa [bareChars_of_word hword]
  · rwa [bareChars, bareChars_of_word hword]

theorem isName_ofIdentifier {identifier : String} (h : ∀ c ∈ identifier.toList, c.isAlphanum) :
    IsName (ofIdentifier identifier).toList := by
  have hword : ∀ c ∈ (Identifier.snakeCase identifier).toList, isWordChar c := by
    rw [Identifier.snakeCase, String.toList_ofList]
    exact isWordChar_snakeChars h none
  rw [ofIdentifier]
  split
  · refine ⟨_, ?_, Or.inl rfl⟩
    rw [String.toList_append]
    exact List.forall_mem_append.mpr ⟨hword, List.all_eq_true.mp rfl⟩
  · split
    · exact ⟨_, hword, Or.inr String.toList_append⟩
    · exact ⟨_, hword, Or.inl rfl⟩

/-- A name that is made unique is the name itself or has a number after it, without its mark. -/
theorem unique_eq (taken : List String) (identifier : String) :
    unique taken identifier = ofIdentifier identifier ∧ ofIdentifier identifier ∉ taken ∨
      ∃ n : Nat, unique taken identifier = bare (ofIdentifier identifier) ++ "_" ++ toString n ∧
        bare (ofIdentifier identifier) ++ "_" ++ toString n ∉ taken := by
  rw [unique]
  by_cases hmem : ofIdentifier identifier ∈ taken
  · rw [if_pos (List.contains_iff_mem.mpr hmem)]
    obtain ⟨n, -, hnumbered, hfree, -⟩ := Fresh.exists_numbered taken
      (Fresh.append_toString_injective (bare (ofIdentifier identifier) ++ "_"))
    exact Or.inr ⟨n, hnumbered, hfree⟩
  · rw [if_neg (by simpa using hmem)]
    exact Or.inl ⟨rfl, hmem⟩

theorem isName_unique (taken : List String) {identifier : String}
    (h : ∀ c ∈ identifier.toList, c.isAlphanum) : IsName (unique taken identifier).toList := by
  have hname := isName_ofIdentifier h
  rcases unique_eq taken identifier with ⟨heq, -⟩ | ⟨n, heq, -⟩
  · rwa [heq]
  · have hbare : ∀ c ∈ (bare (ofIdentifier identifier)).toList, isWordChar c := by
      rw [bare, String.toList_ofList]
      exact isWordChar_bareChars hname
    have hnumber : ∀ c ∈ (toString n).toList, isWordChar c := by
      intro c hc
      rw [isWordChar, Char.isAlphanum, Fresh.isDigit_of_mem_toString hc]
      simp
    refine ⟨_, ?_, Or.inl rfl⟩
    rw [heq, String.toList_append, String.toList_append]
    exact List.forall_mem_append.mpr
      ⟨List.forall_mem_append.mpr ⟨hbare, List.all_eq_true.mp rfl⟩, hnumber⟩

theorem IsName.ne_colon {name : List Char} (h : IsName name) : ∀ c ∈ name, (c != ':') = true := by
  obtain ⟨word, hword, hname⟩ := h
  have hchars : ∀ c ∈ word, (c != ':') = true := by
    intro c hc
    rw [bne_iff_ne]
    rintro rfl
    exact absurd (hword ':' hc) (by decide)
  rcases hname with rfl | rfl
  · exact hchars
  · exact List.forall_mem_cons.mpr ⟨rfl, List.forall_mem_cons.mpr ⟨rfl, hchars⟩⟩

end FieldName

/-! The reader on the texts that are written. -/

theorem dropPrefix?_append_self (mark rest : List Char) :
    (mark ++ rest).dropPrefix? mark = some rest :=
  List.dropPrefix?_append_of_beq rest (beq_self_eq_true mark)

/-- The line of a field itself is not taken for one of attributes. -/
theorem dropPrefix?_line (rest : List Char) :
    ("    pub ".toList ++ rest).dropPrefix? renameMark = none ∧
      ("    pub ".toList ++ rest).dropPrefix? optionalLine = none :=
  ⟨rfl, rfl⟩

theorem wireName?_named {name : List Char} (hname : FieldName.IsName name) (more : List Char) :
    wireName? ("    pub ".toList ++ (name ++ ':' :: more)) = some (String.ofList (unraw name)) := by
  obtain ⟨hother, hpresent⟩ := dropPrefix?_line (name ++ ':' :: more)
  have htake : (name ++ ':' :: more).takeWhile (· != ':') = name := by
    rw [List.takeWhile_append_of_pos hname.ne_colon, List.takeWhile_cons_of_neg (by decide),
      List.append_nil]
  rw [wireName?, hother]
  dsimp only
  rw [hpresent, Option.getD_none, dropPrefix?_append_self, Option.map_some, htake]

theorem wireName?_optional {name : List Char} (hname : FieldName.IsName name) (more : List Char) :
    wireName? (optionalLine ++ ("    pub ".toList ++ (name ++ ':' :: more))) =
      some (String.ofList (unraw name)) := by
  rw [← wireName?_named hname more, wireName?, wireName?]
  have hother : (optionalLine ++ ("    pub ".toList ++ (name ++ ':' :: more))).dropPrefix?
      renameMark = none := rfl
  obtain ⟨hplain, hpresent⟩ := dropPrefix?_line (name ++ ':' :: more)
  rw [hother, hplain, hpresent, dropPrefix?_append_self]
  rfl

theorem wireName?_renamed (key : String) (more : List Char) :
    wireName? (renameMark ++ (key.toList.flatMap (Text.escapeChar '"') ++ '"' :: more)) =
      some key := by
  rw [wireName?, dropPrefix?_append_self]
  dsimp only
  rw [Text.readLiteral_quoted, Option.map_some, String.ofList_toList]

/-! The lines of a field -/

theorem toList_rename (key others : String) :
    ("    #[serde(rename = " ++ Text.quote key ++ others).toList =
      renameMark ++ (key.toList.flatMap (Text.escapeChar '"') ++ '"' :: others.toList) := by
  have hmark : renameMark = "    #[serde(rename = ".toList ++ ['"'] := rfl
  simp only [hmark, String.toList_append, Text.toList_quote, List.append_assoc, List.cons_append,
    List.nil_append]

/-- A field has no attributes, those of a field that may be missing, or first its key. -/
theorem attributeLines_cases (name key : String) (optional : Bool) :
    FieldName.bare name = key ∧
        (attributeLines name key optional = [] ∨ attributeLines name key optional =
          ["    #[serde(default, skip_serializing_if = \"Option::is_none\")]"]) ∨
      ∃ others : String, Text.oneLine others.toList ∧ attributeLines name key optional =
        ["    #[serde(rename = " ++ Text.quote key ++ others] := by
  rw [attributeLines]
  by_cases hbare : FieldName.bare name = key
  · refine Or.inl ⟨hbare, ?_⟩
    rw [if_pos hbare]
    cases optional with
    | false => exact Or.inl rfl
    | true => exact Or.inr rfl
  · refine Or.inr ?_
    rw [if_neg hbare]
    cases optional with
    | false => exact ⟨")]", by decide, rfl⟩
    | true =>
      exact ⟨", default, skip_serializing_if = \"Option::is_none\")]", by decide, rfl⟩

/-- The attributes of a field take one line, or none. -/
theorem oneLine_attributeLines (name key : String) (optional : Bool) :
    (attributeLines name key optional).length ≤ 1 ∧
      ∀ line ∈ attributeLines name key optional, Text.oneLine line.toList := by
  rcases attributeLines_cases name key optional with ⟨-, hnone | hline⟩ | ⟨others, hothers, hline⟩
  · rw [hnone]
    exact ⟨by decide, fun _ h => absurd h List.not_mem_nil⟩
  · rw [hline]
    exact ⟨by decide, by decide⟩
  · rw [hline]
    refine ⟨Nat.le_refl 1, List.forall_mem_singleton.mpr ?_⟩
    rw [toList_rename, Text.oneLine_append, Text.oneLine_append, Text.oneLine_escaped,
      Text.oneLine_cons, hothers]
    decide

/-- The name in the data that the lines of a field give is the key that it stands for. -/
theorem PrintedField.wireName?_lines {options : RenderOptions} (hserde : options.deriveSerde)
    {p : PrintedField} {f : Field} (hshows : p.Shows options f)
    (hname : FieldName.IsName p.name.toList) :
    wireName? (Text.unlines p.lines) = some f.sourceKey := by
  have hattributes := hshows.attributes
  rw [if_pos hserde] at hattributes
  obtain ⟨more, hline⟩ : ∃ more, Text.unlines p.lines = Text.unlines p.attributes ++
      ("    pub ".toList ++ (p.name.toList ++ ':' :: more)) := by
    rw [lines, Text.unlines_append, Text.unlines_cons]
    simp only [String.toList_append, List.append_assoc]
    exact ⟨_, rfl⟩
  rw [hline, hattributes]
  rcases attributeLines_cases p.name f.sourceKey f.optional with
    ⟨hbare, hnone | hmissing⟩ | ⟨others, -, hrenamed⟩
  · rw [hnone, Text.unlines_nil, List.nil_append, wireName?_named hname,
      ← FieldName.bareChars_of_isName hname]
    exact congrArg some hbare
  · have hline : Text.unlines ["    #[serde(default, skip_serializing_if = \"Option::is_none\")]"] =
        optionalLine := rfl
    rw [hmissing, hline, wireName?_optional hname, ← FieldName.bareChars_of_isName hname]
    exact congrArg some hbare
  · rw [hrenamed, Text.unlines_cons, toList_rename]
    simp only [List.append_assoc, List.cons_append]
    exact wireName?_renamed f.sourceKey _

/-! Records as inference makes them. -/

/-- A record with one field for each key and proper identifiers. -/
structure Record.WellKeyed (r : Record) : Prop where
  keys : r.sourceKeys.Nodup
  identifiers : ∀ f ∈ r.fields, Identifier.Proper f.identifier

theorem Root.Inferred.wellKeyed {root : Root} (h : root.Inferred) :
    ∀ r ∈ root.records, r.WellKeyed :=
  fun r hr => ⟨h.keysNodup r hr, h.proper_identifiers r hr⟩

theorem Record.WellKeyed.sorted {r : Record} (h : r.WellKeyed) : r.sorted.WellKeyed where
  keys := (r.map_fields_sorted_perm Field.sourceKey_sortedShape).nodup_iff.mpr h.keys
  identifiers := by
    intro f hf
    obtain ⟨g, hg, rfl⟩ := List.mem_map.mp (r.fields_sorted_perm.mem_iff.mp hf)
    rw [g.identifier_sortedShape]
    exact h.identifiers g hg

theorem RenderOptions.wellKeyed_arrange (options : RenderOptions) {roots : List Root}
    (hroots : ∀ root ∈ roots, root.Inferred) :
    ∀ r ∈ (options.arrange roots).flatMap Root.records, r.WellKeyed :=
  options.forall_mem_arrange (fun _ h => h.sorted) fun root hroot => (hroots root hroot).wellKeyed

/-- The lines of a struct give the keys of a record as the names of its fields in the data, each of
them once, and with attributes on one line. -/
structure Block.NamesKeys (options : RenderOptions) (printed : List PrintedField) (r : Record) :
    Prop where
  shows : List.Forall₂ (PrintedField.Shows options) printed r.fields
  names : printed.map (fun p => wireName? (Text.unlines p.lines)) = r.sourceKeys.map some
  distinct : (printed.map fun p => wireName? (Text.unlines p.lines)).Nodup
  oneLine : ∀ p ∈ printed, p.attributes.length ≤ 1 ∧ ∀ line ∈ p.attributes, Text.oneLine line.toList

theorem PrintedField.exists_of_mem {options : RenderOptions} {printed : List PrintedField}
    {fields : List Field} (hshows : List.Forall₂ (Shows options) printed fields)
    {p : PrintedField} (hp : p ∈ printed) : ∃ f ∈ fields, p.Shows options f := by
  induction hshows with
  | nil => exact absurd hp List.not_mem_nil
  | cons hhere _ ih =>
    rcases List.mem_cons.mp hp with rfl | hlater
    · exact ⟨_, List.mem_cons_self, hhere⟩
    · obtain ⟨f, hf, hshown⟩ := ih hlater
      exact ⟨f, List.mem_cons_of_mem _ hf, hshown⟩

theorem PrintedField.isName_of_shows {options : RenderOptions} {p : PrintedField} {f : Field}
    (h : p.Shows options f) (hproper : Identifier.Proper f.identifier) :
    FieldName.IsName p.name.toList := by
  obtain ⟨used, hname⟩ := h.name
  rw [hname]
  exact FieldName.isName_unique used hproper.isAlphanum

theorem PrintedField.wireNames_of_shows {options : RenderOptions} (hserde : options.deriveSerde)
    {printed : List PrintedField} {fields : List Field}
    (hshows : List.Forall₂ (Shows options) printed fields)
    (hproper : ∀ f ∈ fields, Identifier.Proper f.identifier) :
    printed.map (fun p => wireName? (Text.unlines p.lines)) =
      (fields.map Field.sourceKey).map some := by
  induction hshows with
  | nil => rfl
  | @cons p f printed fields hp _ ih =>
    obtain ⟨hhere, hlater⟩ := List.forall_mem_cons.mp hproper
    rw [List.map_cons, List.map_cons, List.map_cons, ih hlater,
      wireName?_lines hserde hp (isName_of_shows hp hhere)]

theorem PrintedField.oneLine_of_shows {options : RenderOptions} {printed : List PrintedField}
    {fields : List Field} (hshows : List.Forall₂ (Shows options) printed fields) :
    ∀ p ∈ printed, p.attributes.length ≤ 1 ∧ ∀ line ∈ p.attributes, Text.oneLine line.toList := by
  intro p hp
  obtain ⟨f, -, hshown⟩ := exists_of_mem hshows hp
  rw [hshown.attributes]
  split
  · exact oneLine_attributeLines p.name f.sourceKey f.optional
  · exact ⟨Nat.zero_le 1, fun _ h => absurd h List.not_mem_nil⟩

theorem Block.namesKeys_of_shows {options : RenderOptions} (hserde : options.deriveSerde)
    {printed : List PrintedField} {r : Record}
    (hshows : List.Forall₂ (PrintedField.Shows options) printed r.fields) (hkeyed : r.WellKeyed) :
    NamesKeys options printed r := by
  have hnames := PrintedField.wireNames_of_shows hserde hshows hkeyed.identifiers
  refine ⟨hshows, hnames, ?_, PrintedField.oneLine_of_shows hshows⟩
  rw [hnames]
  exact hkeyed.keys.map (Option.some_injective String)

/-- The lines of the text are those of blocks in which, for inferred roots, every field is given its
key as its name in the data, and no two fields of one struct have the same. -/
theorem Root.namesKeys_declarations {options : RenderOptions} (hserde : options.deriveSerde)
    {roots : List Root} (hroots : ∀ root ∈ roots, root.Inferred) :
    ∃ blocks : List Block,
      (render options roots).toList = Text.unlines (Block.fileLines options blocks) ∧
        List.Forall₂ (Block.NamesKeys options) (blocks.filterMap Block.fields?)
          ((options.arrange roots).flatMap Root.records) :=
  ⟨Root.blocks options roots, Root.toList_render options roots,
    Root.forall₂_structs options (options.wellKeyed_arrange hroots) fun _ hkeyed _ hlength =>
      Block.namesKeys_of_shows hserde (Field.shows_printed options hlength []) hkeyed⟩

/-- Keys that the name of a field cannot say, one of them with line breaks in it. -/
theorem Root.namesKeys_declarations_of_object :
    let d : Value := .object [("a\n\"b\u2028", .integer 1), ("type", .null), ("Type", .null)]
    let options : RenderOptions := {}
    ∃ described, Root.ofDocument Initialisms.standard "Root" 0 d = .ok described ∧
      options.deriveSerde ∧ (∀ root ∈ [described.result], root.Inferred) ∧
      (∃ blocks : List Block,
        (render options [described.result]).toList = Text.unlines (Block.fileLines options blocks) ∧
          List.Forall₂ (Block.NamesKeys options) (blocks.filterMap Block.fields?)
            ((options.arrange [described.result]).flatMap Root.records)) ∧
      render options [described.result] = "\n".intercalate [
        "use serde::\x7bDeserialize, Serialize\x7d;",
        "",
        "#[derive(Debug, Clone, PartialEq, Serialize, Deserialize)]",
        "pub struct Root \x7b",
        "    #[serde(rename = \"a\\n\\\"b\\u\x7b2028\x7d\")]",
        "    pub ab: i64,",
        "    pub r#type: serde_json::Value,",
        "    #[serde(rename = \"Type\")]",
        "    pub type2: serde_json::Value,",
        "\x7d\n"] := by
  intro d options
  obtain ⟨described, hdescribed⟩ :
    ∃ described, Root.ofDocument Initialisms.standard "Root" 0 d = .ok described := ⟨_, rfl⟩
  have hroots : ∀ root ∈ [described.result], root.Inferred :=
    List.forall_mem_singleton.mpr
      ⟨Initialisms.standard, "Root", 0, d, described, by decide, hdescribed, rfl⟩
  refine ⟨described, hdescribed, rfl, hroots, Root.namesKeys_declarations rfl hroots, ?_⟩
  obtain rfl := Except.ok.inj hdescribed
  decide +kernel

end Exemplar
