import Exemplar.Proofs.WireNames

/-!
# Field names can be used

A field name must be a word that the language does not keep for itself, or such a word marked as a
raw identifier where the language allows the mark. Names that pass this test are told apart by what
stands behind the mark, so the names in one struct are distinct with and without it. Both hold for
all fields with proper identifiers, however these clash.
-/

namespace Exemplar

namespace FieldName

/-! What the language asks of a name -/

/-- The keywords that the language uses, in its edition of 2024. -/
def strictKeywords : List String := [
  "_", "as", "async", "await", "break", "const", "continue", "crate", "dyn", "else", "enum",
  "extern", "false", "fn", "for", "if", "impl", "in", "let", "loop", "match", "mod", "move", "mut",
  "pub", "ref", "return", "self", "Self", "static", "struct", "super", "trait", "true", "type",
  "unsafe", "use", "where", "while"]

/-- The keywords that the language keeps for later, in its edition of 2024. -/
def futureKeywords : List String := [
  "abstract", "become", "box", "do", "final", "gen", "macro", "override", "priv", "try", "typeof",
  "unsized", "virtual", "yield"]

/-- The keywords that cannot be marked as raw identifiers. -/
def neverRaw : List String := ["_", "crate", "self", "Self", "super"]

def isKeyword (name : String) : Bool :=
  (strictKeywords ++ futureKeywords).contains name

def isLowerChar (c : Char) : Bool :=
  c.isLower || c.isDigit || c == '_'

/-- A lower-case letter followed by lower-case letters, digits and underscores. -/
def isLowerWord : List Char → Bool
  | [] => false
  | first :: rest => first.isLower && rest.all isLowerChar

/-- A name that a field can have. -/
inductive Legal : String → Prop where
  | plain {name : String} (hword : isLowerWord name.toList) (hfree : isKeyword name = false) :
    Legal name
  | raw {word : String} (hkeyword : isKeyword word) (hraw : word ∉ neverRaw) : Legal ("r#" ++ word)

theorem forall_isKeyword {P : String → Prop} (h : ∀ word ∈ strictKeywords ++ futureKeywords, P word)
    {word : String} (hword : isKeyword word) : P word :=
  h word (List.contains_iff_mem.mp hword)

/-- The words that are escaped are the keywords, but for those that are no words in lower case. -/
theorem mem_of_isKeyword {word : String} (hkeyword : isKeyword word)
    (hword : isLowerWord word.toList) : word ∈ reserved ∨ word ∈ keywords := by
  have hall : ∀ word ∈ strictKeywords ++ futureKeywords,
      isLowerWord word.toList → word ∈ reserved ∨ word ∈ keywords := by
    decide +kernel
  exact forall_isKeyword hall hkeyword hword

theorem isLowerWord_of_raw {word : String} (hkeyword : isKeyword word) (hraw : word ∉ neverRaw) :
    isLowerWord word.toList := by
  have hall : ∀ word ∈ strictKeywords ++ futureKeywords,
      word ∉ neverRaw → isLowerWord word.toList := by
    decide +kernel
  exact forall_isKeyword hall hkeyword hraw

theorem isKeyword_of_mem_keywords {word : String} (h : word ∈ keywords) :
    isKeyword word ∧ word ∉ neverRaw := by
  have hall : ∀ word ∈ keywords, isKeyword word ∧ word ∉ neverRaw := by decide +kernel
  exact hall word h

theorem not_isKeyword_of_mem_reserved {word : String} (h : word ∈ reserved) :
    isKeyword (word ++ "_") = false := by
  have hall : ∀ word ∈ reserved, isKeyword (word ++ "_") = false := by decide +kernel
  exact hall word h

/-- No keyword has a digit in it. -/
theorem not_isKeyword_of_isDigit {name : String} {c : Char} (hc : c ∈ name.toList)
    (hdigit : c.isDigit) : isKeyword name = false := by
  have hall : ∀ word ∈ strictKeywords ++ futureKeywords,
      (word.toList.all fun c => !c.isDigit) = true := by
    decide +kernel
  by_contra hkeyword
  have hnone := forall_isKeyword hall (Bool.eq_true_of_not_eq_false hkeyword)
  have := List.all_eq_true.mp hnone c hc
  simp [hdigit] at this

theorem isLowerChar_underscore : ∀ c ∈ "_".toList, isLowerChar c := by
  simp [isLowerChar]

theorem isLowerWord_append {word more : List Char} (hword : isLowerWord word)
    (hmore : ∀ c ∈ more, isLowerChar c) : isLowerWord (word ++ more) := by
  cases word with
  | nil => contradiction
  | cons first rest =>
    rw [isLowerWord, Bool.and_eq_true] at hword
    rw [List.cons_append, isLowerWord, List.all_append, hword.1, hword.2]
    simpa using hmore

theorem isWordChar_of_isLowerWord {word : List Char} (h : isLowerWord word) :
    ∀ c ∈ word, isWordChar c := by
  have hlower : ∀ c, isLowerChar c → isWordChar c := by
    intro c hc
    simp only [isLowerChar, Bool.or_eq_true] at hc
    simp only [isWordChar, Char.isAlphanum, Char.isAlpha, Bool.or_eq_true]
    rcases hc with (hlower | hdigit) | hmark
    · exact Or.inl (Or.inl (Or.inr hlower))
    · exact Or.inl (Or.inr hdigit)
    · exact Or.inr hmark
  cases word with
  | nil => exact absurd h Bool.false_ne_true
  | cons first rest =>
    rw [isLowerWord, Bool.and_eq_true, List.all_eq_true] at h
    refine List.forall_mem_cons.mpr ⟨hlower first ?_, fun c hc => hlower c (h.2 c hc)⟩
    simp [isLowerChar, h.1]

/-! Legal names without the mark -/

theorem bare_of_isLowerWord {name : String} (h : isLowerWord name.toList) : bare name = name := by
  rw [bare, bareChars_of_word (isWordChar_of_isLowerWord h), String.ofList_toList]

theorem bare_raw {word : String} (h : isLowerWord word.toList) : bare ("r#" ++ word) = word := by
  have hmark : ("r#" ++ word).toList = 'r' :: '#' :: word.toList := String.toList_append
  rw [bare, hmark, bareChars, bareChars_of_word (isWordChar_of_isLowerWord h),
    String.ofList_toList]

theorem Legal.isLowerWord_bare {name : String} (h : Legal name) :
    isLowerWord (bare name).toList := by
  cases h with
  | plain hword _ => rwa [bare_of_isLowerWord hword]
  | raw hkeyword hraw =>
    have hword := isLowerWord_of_raw hkeyword hraw
    rwa [bare_raw hword]

/-- A marked name is a keyword without its mark, and an unmarked one is not. -/
theorem Legal.eq_of_bare_eq {a b : String} (ha : Legal a) (hb : Legal b)
    (h : bare a = bare b) : a = b := by
  cases ha with
  | plain haword hafree =>
    rw [bare_of_isLowerWord haword] at h
    cases hb with
    | plain hbword _ => rwa [bare_of_isLowerWord hbword] at h
    | raw hkeyword hraw =>
      rw [bare_raw (isLowerWord_of_raw hkeyword hraw)] at h
      rw [h, hkeyword] at hafree
      contradiction
  | raw hakeyword haraw =>
    rw [bare_raw (isLowerWord_of_raw hakeyword haraw)] at h
    cases hb with
    | plain hbword hbfree =>
      rw [bare_of_isLowerWord hbword] at h
      rw [← h, hakeyword] at hbfree
      contradiction
    | raw hkeyword hraw =>
      rw [bare_raw (isLowerWord_of_raw hkeyword hraw)] at h
      rw [h]

/-! The names of fields -/

theorem isLowerChar_snakeChars {text : List Char} (h : ∀ c ∈ text, c.isAlphanum)
    (previous : Option Char) : ∀ c ∈ Identifier.snakeChars previous text, isLowerChar c := by
  have hmark : isLowerChar '_' := rfl
  refine Identifier.forall_mem_snakeChars hmark ?_ previous
  intro c hc
  refine ⟨fun hupper => by simp [isLowerChar, Char.isAlpha, hupper], fun hupper => ?_⟩
  have halphanum := h c hc
  simp only [Char.isAlphanum, Char.isAlpha, hupper, Bool.false_or] at halphanum
  rw [isLowerChar, halphanum, Bool.true_or]

theorem isLowerWord_snakeCase {identifier : String} (h : Identifier.Proper identifier) :
    isLowerWord (Identifier.snakeCase identifier).toList := by
  obtain ⟨first, rest, hname, hfirst, hrest⟩ := h
  have hlower : first.toLower.isLower := by simp [Char.isAlpha, hfirst]
  have htail := isLowerChar_snakeChars hrest (some first)
  rw [Identifier.snakeCase, String.toList_ofList, hname, Identifier.snakeChars, if_pos hfirst]
  simp only [Identifier.beginsWord, Bool.false_eq_true, if_false, isLowerWord, hlower,
    Bool.true_and]
  exact List.all_eq_true.mpr htail

theorem legal_ofIdentifier {identifier : String} (h : Identifier.Proper identifier) :
    Legal (ofIdentifier identifier) := by
  have hword := isLowerWord_snakeCase h
  rw [ofIdentifier]
  generalize Identifier.snakeCase identifier = name at hword
  by_cases hreserved : name ∈ reserved
  · rw [if_pos (by simpa using hreserved)]
    refine .plain ?_ (not_isKeyword_of_mem_reserved hreserved)
    rw [String.toList_append]
    exact isLowerWord_append hword isLowerChar_underscore
  · rw [if_neg (by simpa using hreserved)]
    by_cases hkeyword : name ∈ keywords
    · obtain ⟨hkept, hraw⟩ := isKeyword_of_mem_keywords hkeyword
      rw [if_pos (by simpa using hkeyword)]
      exact .raw hkept hraw
    · rw [if_neg (by simpa using hkeyword)]
      refine .plain hword (Bool.eq_false_of_not_eq_true fun hkept => ?_)
      exact (mem_of_isKeyword hkept hword).elim hreserved hkeyword

theorem unique_not_mem (taken : List String) (identifier : String) :
    unique taken identifier ∉ taken := by
  rcases unique_eq taken identifier with ⟨heq, hfree⟩ | ⟨n, heq, hfree⟩
  · rwa [heq]
  · rwa [heq]

theorem legal_unique (taken : List String) {identifier : String}
    (h : Identifier.Proper identifier) : Legal (unique taken identifier) := by
  have hbase := legal_ofIdentifier h
  rcases unique_eq taken identifier with ⟨heq, -⟩ | ⟨n, heq, -⟩
  · rwa [heq]
  · -- the number keeps the name from being a keyword
    obtain ⟨digit, hdigit⟩ := List.exists_mem_of_ne_nil _ (Fresh.toList_toString_ne_nil n)
    have hdigits : ∀ c ∈ (toString n).toList, isLowerChar c := by
      intro c hc
      simp [isLowerChar, Fresh.isDigit_of_mem_toString hc]
    rw [heq]
    refine .plain ?_ (not_isKeyword_of_isDigit (c := digit) ?_
      (Fresh.isDigit_of_mem_toString hdigit))
    · rw [String.toList_append, String.toList_append]
      exact isLowerWord_append (isLowerWord_append hbase.isLowerWord_bare isLowerChar_underscore)
        hdigits
    · rw [String.toList_append]
      exact List.mem_append_right _ hdigit

end FieldName

/-! The names in a struct -/

theorem Field.names_declarations (used : List String) (fields : List Field)
    (children : List String) :
    ((Field.declarations used fields children).map FieldDeclaration.name).Nodup ∧
      ∀ entry ∈ Field.declarations used fields children, entry.name ∉ used := by
  induction fields generalizing used children with
  | nil =>
    have hnone : Field.declarations used [] children = [] := by cases children <;> rfl
    rw [hnone]
    exact ⟨List.nodup_nil, fun _ h => absurd h List.not_mem_nil⟩
  | cons f fields ih =>
    cases children with
    | nil => exact ⟨List.nodup_nil, fun _ h => absurd h List.not_mem_nil⟩
    | cons child children =>
      have hfree := FieldName.unique_not_mem used f.identifier
      obtain ⟨hnodup, hlater⟩ := ih (FieldName.unique used f.identifier :: used) children
      rw [Field.declarations]
      refine ⟨List.nodup_cons.mpr ⟨?_, hnodup⟩, List.forall_mem_cons.mpr ⟨hfree, ?_⟩⟩
      · intro hmem
        obtain ⟨entry, hentry, hname⟩ := List.mem_map.mp hmem
        exact hlater entry hentry (hname ▸ List.mem_cons_self)
      · exact fun entry hentry hmem => hlater entry hentry (List.mem_cons_of_mem _ hmem)

/-- The fields that are read of a struct have names that they can have, one for each field of the
record. The names are distinct, and stay so without the mark of raw identifiers. -/
structure Block.WellNamed (options : RenderOptions) (printed : List PrintedField) (r : Record) :
    Prop where
  shows : List.Forall₂ (PrintedField.Shows options) printed r.fields
  legal : ∀ p ∈ printed, FieldName.Legal p.name
  apart : (printed.map fun p => FieldName.bare p.name).Nodup

theorem PrintedField.legal_of_shows {options : RenderOptions} {printed : List PrintedField}
    {fields : List Field} (hshows : List.Forall₂ (Shows options) printed fields)
    (hproper : ∀ f ∈ fields, Identifier.Proper f.identifier) :
    ∀ p ∈ printed, FieldName.Legal p.name := by
  intro p hp
  obtain ⟨f, hf, hshown⟩ := exists_of_mem hshows hp
  obtain ⟨used, hname⟩ := hshown.name
  rw [hname]
  exact FieldName.legal_unique used (hproper f hf)

theorem Block.wellNamed_printed (options : RenderOptions) {r : Record}
    (hproper : ∀ f ∈ r.fields, Identifier.Proper f.identifier) {children : List String}
    (hlength : children.length = r.fields.length) :
    WellNamed options
      ((Field.declarations [] r.fields children).map (FieldDeclaration.printed options)) r := by
  have hshows := Field.shows_printed options hlength []
  have hlegal := PrintedField.legal_of_shows hshows hproper
  have hnodup := (Field.names_declarations [] r.fields children).1
  have hnames : ∀ name ∈ (Field.declarations [] r.fields children).map FieldDeclaration.name,
      FieldName.Legal name :=
    List.forall_mem_map.mpr fun entry hentry => hlegal _ (List.mem_map_of_mem hentry)
  have hbare := List.Nodup.map_on
    (fun a ha b hb h => (hnames a ha).eq_of_bare_eq (hnames b hb) h) hnodup
  rw [List.map_map] at hbare
  refine ⟨hshows, hlegal, ?_⟩
  rwa [List.map_map]

/-- The lines of the text are those of blocks in which, for inferred roots, every field has a name
that the language allows, and no two fields of one struct have the same, with or without the mark of
raw identifiers. -/
theorem Root.wellNamed_declarations (options : RenderOptions) {roots : List Root}
    (hroots : ∀ root ∈ roots, root.Inferred) :
    ∃ blocks : List Block,
      (render options roots).toList = Text.unlines (Block.fileLines options blocks) ∧
        List.Forall₂ (Block.WellNamed options) (blocks.filterMap Block.fields?)
          ((options.arrange roots).flatMap Root.records) :=
  ⟨Root.blocks options roots, Root.toList_render options roots,
    Root.forall₂_structs options (options.wellKeyed_arrange hroots) fun _ hkeyed _ hlength =>
      Block.wellNamed_printed options hkeyed.identifiers hlength⟩

/-- Keywords of both kinds, and identifiers that differ only in case. -/
theorem Root.wellNamed_declarations_of_keywords :
    let d : Value := .object [("type", .null), ("TYPE", .null), ("self", .null), ("Type", .null)]
    let options : RenderOptions := { deriveSerde := false }
    ∃ described, Root.ofDocument Initialisms.standard "Root" 0 d = .ok described ∧
      (∀ root ∈ [described.result], root.Inferred) ∧
      (∃ blocks : List Block,
        (render options [described.result]).toList = Text.unlines (Block.fileLines options blocks) ∧
          List.Forall₂ (Block.WellNamed options) (blocks.filterMap Block.fields?)
            ((options.arrange [described.result]).flatMap Root.records)) ∧
      render options [described.result] = "\n".intercalate [
        "#[derive(Debug, Clone, PartialEq)]",
        "pub struct Root \x7b",
        "    pub r#type: serde_json::Value,",
        "    pub type_2: serde_json::Value,",
        "    pub self_: serde_json::Value,",
        "    pub type2: serde_json::Value,",
        "\x7d\n"] := by
  intro d options
  obtain ⟨described, hdescribed⟩ :
    ∃ described, Root.ofDocument Initialisms.standard "Root" 0 d = .ok described := ⟨_, rfl⟩
  have hroots : ∀ root ∈ [described.result], root.Inferred :=
    List.forall_mem_singleton.mpr
      ⟨Initialisms.standard, "Root", 0, d, described, by decide, hdescribed, rfl⟩
  refine ⟨described, hdescribed, hroots, Root.wellNamed_declarations options hroots, ?_⟩
  obtain rfl := Except.ok.inj hdescribed
  decide +kernel

end Exemplar
