import Exemplar.Proofs.CommentTexts
import Exemplar.Proofs.WireNames

/-!
# Comments change no line

The generated code with comments is the code without them, line by line, but for the comments
themselves: they stand behind the fields that have a sample, each on the line of its field, and no
comment reaches beyond its line. Both texts are followed block by block, together with the entries
whose lines bear a comment.
-/

namespace Exemplar

/-! Fields with a sample -/

/-- The fields of a record that have a sample hold no record. -/
def Record.SamplesPlain (r : Record) : Prop :=
  ∀ f ∈ r.fields, f.sample.isSome → f.child? = none

namespace Summary

variable (initialisms : Initialisms) (name : String)

/-- An array with a scalar in it has no record for its elements. -/
theorem record?_slice_of_isScalar {elements : List Value} {v : Value} (hv : v ∈ elements)
    (hscalar : v.isScalar) : (slice initialisms name elements).record? = none := by
  rw [slice_eq]
  cases hform : form elements with
  | objects =>
    have hobject := List.all_eq_true.mp (form_eq_objects_iff.mp hform).2 v hv
    cases v <;> contradiction
  | arrays =>
    have harray := List.all_eq_true.mp (form_eq_arrays_iff.mp hform).2 v hv
    cases v <;> contradiction
  | _ => rfl

/-- Where some value can illustrate a field, the values of that field have no common record. -/
theorem record?_shape_of_sample {values : List Value} (h : (sample? values).isSome) :
    (shape initialisms name values).record? = none := by
  obtain ⟨sample, hsample⟩ := Option.isSome_iff_exists.mp h
  obtain ⟨v, hv, hown⟩ := List.exists_of_findSome?_eq_some hsample
  have hmem : v ∈ concrete values := by
    refine List.mem_filter.mpr ⟨hv, ?_⟩
    cases v <;> first | rfl | contradiction
  rw [shape_eq]
  cases hform : form (concrete values) with
  | objects =>
    have hobject := List.all_eq_true.mp (form_eq_objects_iff.mp hform).2 v hmem
    cases v <;> contradiction
  | arrays =>
    have harray := List.all_eq_true.mp (form_eq_arrays_iff.mp hform).2 v hmem
    cases v with
    | array elements =>
      rw [Value.sample?] at hown
      split at hown
      · contradiction
      · rename_i hscalars
        obtain ⟨hne, hscalars⟩ : elements ≠ [] ∧ elements.all Value.isScalar := by
          simpa using hscalars
        obtain ⟨element, helement⟩ := List.exists_mem_of_ne_nil elements hne
        dsimp only
        rw [joined]
        split
        · rfl
        · exact record?_slice_of_isScalar initialisms name
            (List.mem_flatMap.mpr ⟨_, hmem, helement⟩)
            (List.all_eq_true.mp hscalars element helement)
    | _ => contradiction
  | _ => rfl

theorem IsRecord.samplesPlain {r : Record} (h : IsRecord r) : r.SamplesPlain := by
  obtain ⟨initialisms, name, examples, rfl⟩ := h
  rw [record_eq]
  refine List.forall_mem_map.mpr fun key _ hsample => ?_
  exact record?_shape_of_sample initialisms (Identifier.ofKey initialisms key) hsample

end Summary

theorem Root.Inferred.samplesPlain {root : Root} (h : root.Inferred) :
    ∀ r ∈ root.records, r.SamplesPlain := by
  intro r hr f hf hsample
  have hkeyed := (h.isRecord_keyed r hr).samplesPlain
  rw [Record.keyed_eq_mk] at hkeyed
  have hnone := hkeyed f.keyed (List.mem_map_of_mem hf) (by rwa [Field.keyed_eq_mk])
  rw [Field.child?, Field.keyed_shape, Shape.record?_keyed] at hnone
  exact Option.map_eq_none_iff.mp hnone

theorem Record.SamplesPlain.sorted {r : Record} (h : r.SamplesPlain) : r.sorted.SamplesPlain := by
  intro f hf hsample
  obtain ⟨g, hg, rfl⟩ := List.mem_map.mp (r.fields_sorted_perm.mem_iff.mp hf)
  have hchild : g.shape.record? = none := h g hg (by cases g; exact hsample)
  rw [Field.child?, Field.shape_sortedShape, Shape.record?_sorted, hchild, Option.map_none]

/-! Entries on one line -/

namespace FieldName

theorem IsName.oneLine {name : List Char} (h : IsName name) : Text.oneLine name := by
  obtain ⟨word, hword, hname⟩ := h
  have hline : Text.oneLine word := Text.oneLine_of_forall (by decide) hword
  rcases hname with rfl | rfl
  · exact hline
  · rw [Text.oneLine_cons, Text.oneLine_cons, hline]
    rfl

end FieldName

/-- The text of a type that mentions no declared one has no line break. -/
theorem FieldType.oneLine_text : ∀ {type : FieldType}, type.mentions = [] →
    Text.oneLine type.text.toList
  | .json, _ | .boolean, _ | .integer, _ | .float, _ | .number, _ | .string, _ => by decide
  | .vector element, h => by
    have helement : Text.oneLine element.text.toList := FieldType.oneLine_text h
    rw [text, String.toList_append, String.toList_append, Text.oneLine_append, Text.oneLine_append,
      helement]
    decide

namespace FieldDeclaration

theorem oneLine_declarationText {f : FieldDeclaration} (hname : FieldName.IsName f.name.toList)
    (htype : f.type.mentions = []) : Text.oneLine f.declarationText.toList := by
  have htext := FieldType.oneLine_text htype
  rw [declarationText]
  split
  all_goals
    simp only [String.toList_append, Text.oneLine_append, htext, hname.oneLine]
    decide

/-- If a field has a sample, its line is one line. -/
def Unbroken (f : FieldDeclaration) : Prop :=
  f.sample.isSome → '\n' ∉ f.declarationText.toList

end FieldDeclaration

theorem Field.unbroken_declarations {fields : List Field} {children : List String}
    (hlength : children.length = fields.length) (used : List String)
    (hproper : ∀ f ∈ fields, Identifier.Proper f.identifier)
    (hplain : ∀ f ∈ fields, f.sample.isSome → f.child? = none) :
    ∀ entry ∈ Field.declarations used fields children, entry.Unbroken := by
  induction fields generalizing children used with
  | nil =>
    obtain rfl := List.length_eq_zero_iff.mp hlength
    exact fun _ h => absurd h List.not_mem_nil
  | cons f fields ih =>
    obtain ⟨hproper, hproperLater⟩ := List.forall_mem_cons.mp hproper
    obtain ⟨hplain, hplainLater⟩ := List.forall_mem_cons.mp hplain
    cases children with
    | nil => contradiction
    | cons child children =>
      refine List.forall_mem_cons.mpr
        ⟨fun hsample => ?_, ih (Nat.succ.inj hlength) _ hproperLater hplainLater⟩
      have hname := FieldName.isName_unique used hproper.isAlphanum
      have hmentions : (f.shape.fieldType child).mentions = [] := by
        have hchild : f.shape.record? = none := hplain hsample
        rw [Shape.mentions_fieldType, Shape.given, hchild]
      have hline := FieldDeclaration.oneLine_declarationText (f := ⟨f.sourceKey,
        FieldName.unique used f.identifier, f.shape.fieldType child, f.optional, f.sample⟩)
        hname hmentions
      exact Text.lineFeed_not_mem hline

/-! Lines -/

/-- A line of code, and the value that a comment behind it may show. -/
structure Line where
  text : List Char
  sample : Option Value := none

/-- The comment behind a line, if there is a value to show. -/
def Line.comment (line : Line) : List Char :=
  match line.sample with
  | some sample => (" // Ex: " ++ sample.commentText).toList
  | none => []

theorem Line.oneLine_comment (line : Line) : Text.oneLine line.comment := by
  rw [comment]
  split
  · rw [String.toList_append, Text.oneLine_append, Value.oneLine_commentText]
    decide
  · rfl

/-- The line of a field. -/
def FieldDeclaration.line (f : FieldDeclaration) : Line :=
  ⟨f.declarationText.toList, f.sample⟩

/-- Two texts have the same lines, but for the comments in the second one. The lines that may bear
one are those of the entries with a sample. -/
def Lined (plain commented : List Char) (entries : List FieldDeclaration) : Prop :=
  ∃ lines : List Line, (∀ line ∈ lines, '\n' ∉ line.text) ∧
    plain = lines.flatMap (fun line => line.text ++ ['\n']) ∧
    commented = lines.flatMap (fun line => line.text ++ line.comment ++ ['\n']) ∧
    lines.filter (·.sample.isSome) =
      (entries.filter (·.sample.isSome)).map FieldDeclaration.line

namespace Lined

variable {plain plain' commented commented' : List Char} {entries entries' : List FieldDeclaration}

theorem nil : Lined [] [] [] :=
  ⟨[], fun _ h => absurd h List.not_mem_nil, rfl, rfl, rfl⟩

theorem append (h : Lined plain commented entries) (h' : Lined plain' commented' entries') :
    Lined (plain ++ plain') (commented ++ commented') (entries ++ entries') := by
  obtain ⟨lines, hlines, rfl, rfl, hentries⟩ := h
  obtain ⟨lines', hlines', rfl, rfl, hentries'⟩ := h'
  refine ⟨lines ++ lines', List.forall_mem_append.mpr ⟨hlines, hlines'⟩, ?_, ?_, ?_⟩
  · rw [List.flatMap_append]
  · rw [List.flatMap_append]
  · rw [List.filter_append, List.filter_append, List.map_append, hentries, hentries']

/-- A text without comments may have any lines. -/
theorem same (text : List Char) : Lined (text ++ ['\n']) (text ++ ['\n']) [] := by
  obtain ⟨texts, htexts, htext⟩ := Text.exists_lines text
  refine ⟨texts.map fun text => ⟨text, none⟩, List.forall_mem_map.mpr htexts, ?_, ?_, ?_⟩
  · rw [htext, List.flatMap_map]
  · rw [htext, List.flatMap_map]
    simp only [Line.comment, List.append_nil]
  · rw [List.filter_map]
    simp

theorem unlines (lines : List String) : Lined (Text.unlines lines) (Text.unlines lines) [] := by
  induction lines with
  | nil => exact nil
  | cons line lines ih =>
    have hall := (same line.toList).append ih
    rw [List.append_assoc] at hall
    rwa [Text.unlines_cons]

/-- The line of an entry. -/
theorem line {f : FieldDeclaration} (h : f.Unbroken) :
    Lined (f.declarationText.toList ++ ['\n'])
      (f.declarationText.toList ++ f.commentText.toList ++ ['\n']) [f] := by
  cases hsample : f.sample with
  | none =>
    have hsame := same f.declarationText.toList
    rw [FieldDeclaration.commentText, hsample]
    obtain ⟨lines, hlines, hplain, hcommented, hentries⟩ := hsame
    refine ⟨lines, hlines, hplain, ?_, ?_⟩
    · simpa using hcommented
    · simpa [hsample] using hentries
  | some sample =>
    refine ⟨[f.line], List.forall_mem_singleton.mpr (h (by rw [hsample]; rfl)), ?_, ?_, ?_⟩
    · simp [FieldDeclaration.line]
    · simp [FieldDeclaration.line, Line.comment, FieldDeclaration.commentText, hsample]
    · simp [FieldDeclaration.line, hsample]

end Lined

variable (options : RenderOptions)

/-- The same rendering, with or without comments. -/
def RenderOptions.withComments (shown : Bool) : RenderOptions :=
  { options with valueComments := shown }

/-- The text of an entry with its attributes. -/
theorem FieldDeclaration.lined_text {f : FieldDeclaration} (h : f.Unbroken) :
    Lined (f.text (options.withComments false)).toList (f.text (options.withComments true)).toList
      [f] := by
  have hattributes : Lined (if options.deriveSerde then f.attributeLine else "").toList
      (if options.deriveSerde then f.attributeLine else "").toList [] := by
    split
    · rw [f.toList_attributeLine]
      exact Lined.unlines _
    · exact Lined.nil
  have htext := hattributes.append (Lined.line h)
  change Lined ((if options.deriveSerde then f.attributeLine else "") ++ f.declarationText ++ "" ++
      "\n").toList
    ((if options.deriveSerde then f.attributeLine else "") ++ f.declarationText ++ f.commentText ++
      "\n").toList [f]
  simp only [String.toList_append, List.append_assoc, String.append_empty] at htext ⊢
  exact htext

theorem FieldDeclaration.lined_texts {fields : List FieldDeclaration}
    (h : ∀ f ∈ fields, f.Unbroken) :
    Lined (String.join (fields.map (text (options.withComments false)))).toList
      (String.join (fields.map (text (options.withComments true)))).toList fields := by
  rw [String.toList_join, String.toList_join, List.flatMap_map, List.flatMap_map]
  induction fields with
  | nil => exact Lined.nil
  | cons f fields ih =>
    obtain ⟨hf, hfields⟩ := List.forall_mem_cons.mp h
    exact (f.lined_text options hf).append (ih hfields)

/-- Blocks with an empty line between them. -/
theorem Lined.intercalate {α : Type} {plain commented : α → List Char}
    {entries : α → List FieldDeclaration} {blocks : List α}
    (h : ∀ block ∈ blocks, Lined (plain block) (commented block) (entries block)) :
    Lined (['\n'].intercalate (blocks.map plain)) (['\n'].intercalate (blocks.map commented))
      (blocks.flatMap entries) := by
  induction blocks with
  | nil => exact Lined.nil
  | cons block blocks ih =>
    obtain ⟨hblock, hblocks⟩ := List.forall_mem_cons.mp h
    cases blocks with
    | nil =>
      rw [List.flatMap_singleton, List.map_singleton, List.map_singleton,
        List.intercalate_singleton, List.intercalate_singleton]
      exact hblock
    | cons next blocks =>
      have hall := (hblock.append (Lined.same [])).append (ih hblocks)
      rw [List.append_nil, List.nil_append] at hall
      rw [List.flatMap_cons, List.map_cons, List.map_cons, List.map_cons, List.map_cons,
        List.intercalate_cons_cons, List.intercalate_cons_cons]
      exact hall

namespace Declaration

theorem lined_text {d : Declaration} (h : ∀ f ∈ d.entries?.getD [], f.Unbroken) :
    Lined (d.text (options.withComments false)).toList (d.text (options.withComments true)).toList
      (d.entries?.getD []) := by
  cases d with
  | struct name fields =>
    have hhead := Lined.same (deriveLine options ++ "pub struct " ++ name ++ " \x7b").toList
    have hfoot := Lined.same "\x7d".toList
    have hall := (hhead.append (FieldDeclaration.lined_texts options h)).append hfoot
    have hbrace : " \x7b\n".toList = " \x7b".toList ++ ['\n'] := rfl
    have hend : "\x7d\n".toList = "\x7d".toList ++ ['\n'] := rfl
    simp only [String.toList_append, List.append_assoc, List.nil_append, List.append_nil] at hall
    simp only [text, String.toList_append, hbrace, hend, List.append_assoc]
    exact hall
  | synonym name type =>
    have hall := Lined.same ("pub type " ++ name ++ " = " ++ type.text ++ ";").toList
    have hend : ";\n".toList = ";".toList ++ ['\n'] := rfl
    simp only [String.toList_append, List.append_assoc] at hall
    simp only [text, String.toList_append, hend, List.append_assoc]
    exact hall

/-- The blocks of the file: the header if it is needed, then the declarations. -/
def blocks (declarations : List Declaration) : List (Option Declaration) :=
  (if options.deriveSerde then [none] else []) ++ declarations.map some

def blockText (d? : Option Declaration) : String :=
  d?.elim header (text options)

theorem fileText_eq (declarations : List Declaration) :
    (fileText options declarations).toList =
      ['\n'].intercalate
        ((blocks options declarations).map fun d? => (blockText options d?).toList) := by
  have hsplit : (if options.deriveSerde then header :: declarations.map (text options)
      else declarations.map (text options)) =
        (blocks options declarations).map (blockText options) := by
    rw [blocks, List.map_append, List.map_map]
    cases options.deriveSerde <;> rfl
  rw [fileText, String.toList_intercalate, hsplit, List.map_map]
  rfl

theorem entries_eq_flatten (declarations : List Declaration) :
    declarations.flatMap (fun d => d.entries?.getD []) =
      (declarations.filterMap entries?).flatten := by
  induction declarations with
  | nil => rfl
  | cons d declarations ih =>
    cases d with
    | struct name fields => exact congrArg (fields ++ ·) ih
    | synonym name type => exact ih

theorem entries_blocks (declarations : List Declaration) :
    (blocks options declarations).flatMap (fun d? => (d?.bind entries?).getD []) =
      (declarations.filterMap entries?).flatten := by
  rw [blocks, List.flatMap_append, List.flatMap_map, ← entries_eq_flatten]
  cases options.deriveSerde <;> rfl

/-- The whole file. -/
theorem lined_fileText {declarations : List Declaration}
    (h : ∀ f ∈ (declarations.filterMap entries?).flatten, f.Unbroken) :
    Lined (fileText (options.withComments false) declarations).toList
      (fileText (options.withComments true) declarations).toList
      (declarations.filterMap entries?).flatten := by
  have hblock : ∀ d? ∈ blocks options declarations,
      Lined (blockText (options.withComments false) d?).toList
        (blockText (options.withComments true) d?).toList ((d?.bind entries?).getD []) := by
    intro d? hd
    cases d? with
    | none =>
      have hheader : header.toList = header.toList.dropLast ++ ['\n'] := by decide
      change Lined header.toList header.toList []
      rw [hheader]
      exact Lined.same _
    | some d =>
      have hdeclared : d ∈ declarations := by simpa [blocks] using hd
      rw [← entries_eq_flatten] at h
      exact lined_text options fun f hf => h f (List.mem_flatMap.mpr ⟨d, hdeclared, hf⟩)
  rw [fileText_eq, fileText_eq, ← entries_blocks options]
  exact Lined.intercalate hblock

end Declaration

/-- The entries of inferred roots that have a sample stand on one line. -/
theorem Root.unbroken_declarations {roots : List Root} (hroots : ∀ root ∈ roots, root.Inferred) :
    ∀ entry ∈ ((declarations options roots).filterMap Declaration.entries?).flatten,
      entry.Unbroken := by
  have hkeyed := options.wellKeyed_arrange hroots
  have hplain := options.forall_mem_arrange (fun _ h => h.sorted) fun root hroot =>
    (hroots root hroot).samplesPlain
  have hdrawn : Declaration.Drawn (declarations options roots)
      ((options.arrange roots).flatMap Root.records) := Root.drawn_declareAll [] _
  have hstructs : List.Forall₂ (fun entries (_ : Record) =>
      (∀ entry ∈ entries, entry.Unbroken) ∧ True)
      ((declarations options roots).filterMap Declaration.entries?)
      ((options.arrange roots).flatMap Root.records) :=
    hdrawn.forall₂ (P := fun r => r.WellKeyed ∧ r.SamplesPlain)
      (fun r hr => ⟨hkeyed r hr, hplain r hr⟩) fun r h children hlength =>
        ⟨Field.unbroken_declarations hlength [] h.1.identifiers h.2, trivial⟩
  rw [List.forall₂_and_left] at hstructs
  exact List.forall_mem_flatten.mpr hstructs.1

/-- The line declares the field, and bears its sample. -/
def Line.Declares (line : Line) (f : Field) : Prop :=
  ∃ entry : FieldDeclaration, entry.Shows f ∧ line.text = entry.declarationText.toList ∧
    line.sample = f.sample

/-- The lines of entries with a sample are those of the fields with one. -/
theorem Root.declares_declarations (roots : List Root) :
    List.Forall₂ Line.Declares
      (((((declarations options roots).filterMap Declaration.entries?).flatten).filter
        (·.sample.isSome)).map FieldDeclaration.line)
      ((((options.arrange roots).flatMap Root.records).flatMap Record.fields).filter
        (·.sample.isSome)) := by
  have hshows := Root.show_declarations options roots
  rw [Declaration.Show, ← List.forall₂_map_right_iff] at hshows
  have hall := List.rel_flatten hshows
  rw [← List.flatMap_def] at hall
  have hsamples : ∀ entry f, FieldDeclaration.Shows entry f →
      (entry.sample.isSome ↔ f.sample.isSome) := fun entry f h => by rw [h.sample]
  refine List.forall₂_map_left_iff.mpr ((List.rel_filter (fun entry f h => hsamples entry f h)
    hall).imp fun entry f h => ?_)
  exact ⟨entry, h, rfl, h.sample⟩

/-- Comments only add to the lines of fields that have a sample, and stay on these lines. -/
theorem Root.comments_only_append {roots : List Root} (hroots : ∀ root ∈ roots, root.Inferred) :
    ∃ lines : List Line,
      (∀ line ∈ lines, '\n' ∉ line.text ∧ Text.oneLine line.comment) ∧
        (render { options with valueComments := false } roots).toList =
          lines.flatMap (fun line => line.text ++ ['\n']) ∧
        (render { options with valueComments := true } roots).toList =
          lines.flatMap (fun line => line.text ++ line.comment ++ ['\n']) ∧
        List.Forall₂ Line.Declares (lines.filter (·.sample.isSome))
          ((((options.arrange roots).flatMap Root.records).flatMap Record.fields).filter
            (·.sample.isSome)) := by
  have hlined := Declaration.lined_fileText options (Root.unbroken_declarations options hroots)
  obtain ⟨lines, hlines, hplain, hcommented, hentries⟩ := hlined
  refine ⟨lines, fun line hline => ⟨hlines line hline, line.oneLine_comment⟩, hplain,
    hcommented, ?_⟩
  rw [hentries]
  exact Root.declares_declarations options roots

/-- A sample with characters that break lines, inside an array, and a number. -/
theorem Root.comments_only_append_of_array :
    let d : Value := .object [("a", .array [.string "x\ny\u2028", .float ⟨false, 1024, 0⟩]),
      ("b", .null), ("c", .object [("a", .integer (-3))])]
    let options : RenderOptions := { deriveSerde := false }
    ∃ described, Root.ofDocument Initialisms.standard "Root" 0 d = .ok described ∧
      (∀ root ∈ [described.result], root.Inferred) ∧
      ∃ lines : List Line,
        (∀ line ∈ lines, '\n' ∉ line.text ∧ Text.oneLine line.comment) ∧
          (render { options with valueComments := false } [described.result]).toList =
            lines.flatMap (fun line => line.text ++ ['\n']) ∧
          (render { options with valueComments := true } [described.result]).toList =
            lines.flatMap (fun line => line.text ++ line.comment ++ ['\n']) ∧
          (lines.filter (·.sample.isSome)).length = 2 := by
  intro d options
  obtain ⟨described, hdescribed⟩ :
    ∃ described, Root.ofDocument Initialisms.standard "Root" 0 d = .ok described := ⟨_, rfl⟩
  have hroots : ∀ root ∈ [described.result], root.Inferred :=
    List.forall_mem_singleton.mpr
      ⟨Initialisms.standard, "Root", 0, d, described, by decide, hdescribed, rfl⟩
  obtain ⟨lines, hlines, hplain, hcommented, hdeclares⟩ :=
    Root.comments_only_append options hroots
  refine ⟨described, hdescribed, hroots, lines, hlines, hplain, hcommented, ?_⟩
  rw [hdeclares.length_eq]
  obtain rfl := Except.ok.inj hdescribed
  decide +kernel

end Exemplar
