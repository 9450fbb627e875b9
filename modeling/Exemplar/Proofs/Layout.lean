import Exemplar.Proofs.Blocks
import Exemplar.Proofs.Freshness
import Exemplar.Proofs.Records

/-!
# What is declared for a root

The layout of the generated code, told without the names that are taken: which blocks belong to a
record that has been given a name, in which order they stand, and which name the type of a field is
made of. Every run of the renderer has this layout, whatever was taken before it.
-/

namespace Exemplar

variable (options : RenderOptions)

/-- What a record may be called inside the type `parent`: by its own name, by that after the name
of the parent, or by the latter with a number. -/
def NamedAfter (parent own name : String) : Prop :=
  name = own ∨ name = parent ++ own ∨ ∃ n : Nat, 2 ≤ n ∧ name = parent ++ own ++ toString n

/-- The field of a struct that stands for a field of a record. Its type is left open. -/
structure FieldDeclaration.Shows (entry : FieldDeclaration) (f : Field) : Prop where
  sourceKey : entry.sourceKey = f.sourceKey
  name : ∃ used, entry.name = FieldName.unique used f.identifier
  optional : entry.optional = f.optional
  sample : entry.sample = f.sample

theorem FieldDeclaration.Shows.printed {entry : FieldDeclaration} {f : Field} (h : entry.Shows f) :
    (entry.printed options).Shows options f where
  name := h.name
  attributes := by rw [FieldDeclaration.printed, h.sourceKey, h.optional]
  comment := by rw [FieldDeclaration.printed, h.sample]

mutual

/-- The blocks of a record under a name: its struct, then those of the records inside it. -/
inductive Record.Laid : String → Record → List Block → Prop where
  | struct {name own : String} {fields : List Field} {printed : List PrintedField}
      {inner : List Block} (hfields : Field.Laid name fields printed inner) :
      Record.Laid name ⟨own, fields⟩ (.struct name printed :: inner)

/-- The lines of fields in the struct `parent`, and the blocks of the records that the fields hold,
one after another. The type of such a field is made of the name under which its record is declared,
and all other types of standard names. -/
inductive Field.Laid : String → List Field → List PrintedField → List Block → Prop where
  | nil {parent : String} : Field.Laid parent [] [] []
  | plain {parent name : String} {depth : Nat} {f : Field} {fields : List Field} {p : PrintedField}
      {printed : List PrintedField} {inner : List Block} (hchild : f.child? = none)
      (hshows : p.Shows options f) (hname : name ∈ standardTypes)
      (htype : p.type = optionText f.optional (vectorText depth name))
      (hrest : Field.Laid parent fields printed inner) :
      Field.Laid parent (f :: fields) (p :: printed) inner
  | record {parent child : String} {depth : Nat} {f : Field} {r : Record} {fields : List Field}
      {p : PrintedField} {printed : List PrintedField} {own inner : List Block}
      (hchild : f.child? = some r) (hshows : p.Shows options f)
      (htype : p.type = optionText f.optional (vectorText depth child))
      (hnamed : NamedAfter parent r.name child) (hown : Record.Laid child r own)
      (hrest : Field.Laid parent fields printed inner) :
      Field.Laid parent (f :: fields) (p :: printed) (own ++ inner)

end

/-- The blocks of a root. An array comes first as an alias, then the record of its elements. -/
inductive Root.Laid : Root → List Block → Prop where
  | record {name : String} {r : Record} {own : List Block}
      (hnamed : NamedAfter "" r.name name) (hown : Record.Laid options name r own) :
      Root.Laid (.record r) own
  | scalars {own name element : String} {depth : Nat} {shape : Shape}
      (hnamed : NamedAfter "" own name) (hchild : shape.record? = none)
      (helement : element ∈ standardTypes) :
      Root.Laid (.slice own shape) [.synonym name (vectorText depth element)]
  | records {own name child : String} {depth : Nat} {shape : Shape} {r : Record}
      {inner : List Block} (hnamed : NamedAfter "" own name)
      (hchild : shape.record? = some r) (hchildNamed : NamedAfter name r.name child)
      (hinner : Record.Laid options child r inner) :
      Root.Laid (.slice own shape) (.synonym name (vectorText depth child) :: inner)

/-- The blocks of roots, one root after another. -/
def Root.AllLaid (roots : List Root) (blocks : List Block) : Prop :=
  ∃ parts, List.Forall₂ (Root.Laid options) roots parts ∧ blocks = parts.flatten

/-- The name that was given to the record in a shape, if there is one. -/
def Shape.given (child : String) (a : Shape) : List String :=
  match a.record? with
  | some _ => [child]
  | none => []

/-- A type mentions the name that was given to the record in its shape, and no other. -/
theorem Shape.mentions_fieldType (child : String) : ∀ a : Shape,
    (a.fieldType child).mentions = a.given child
  | .scalar kind => by cases kind <;> rfl
  | .struct _ | .structSlice _ | .anySlice | .any => rfl
  | .slice element => Shape.mentions_fieldType child element

theorem Shape.declareRecord_eq (taken : TakenNames) (child : String) : ∀ a : Shape,
    a.declareRecord taken child = match a.record? with
      | some r => r.declare taken child
      | none => ([], taken)
  | .scalar _ | .struct _ | .structSlice _ | .anySlice | .any => rfl
  | .slice element => Shape.declareRecord_eq taken child element

theorem Field.declareRecord_eq (taken : TakenNames) (child : String) (f : Field) :
    f.declareRecord taken child = f.shape.declareRecord taken child := by
  cases f; rfl

theorem Field.declareRecords_cons (taken : TakenNames) (child : String) (children : List String)
    (f : Field) (fields : List Field) :
    Field.declareRecords taken (child :: children) (f :: fields) =
      ((f.shape.declareRecord taken child).1 ++
          (Field.declareRecords (f.shape.declareRecord taken child).2 children fields).1,
        (Field.declareRecords (f.shape.declareRecord taken child).2 children fields).2) := by
  rw [← f.declareRecord_eq]
  rfl

theorem Record.declare_mk (taken : TakenNames) (name own : String) (fields : List Field) :
    Record.declare taken name ⟨own, fields⟩ =
      (.struct name (Field.declarations [] fields (Field.claimNames taken name fields).1) ::
          (Field.declareRecords (Field.claimNames taken name fields).2
            (Field.claimNames taken name fields).1 fields).1,
        (Field.declareRecords (Field.claimNames taken name fields).2
          (Field.claimNames taken name fields).1 fields).2) := rfl

theorem Root.declare_record (taken : TakenNames) (r : Record) :
    Root.declare taken (.record r) =
      r.declare (claimTypeName taken r.name "").2 (claimTypeName taken r.name "").1 := rfl

theorem Root.declare_slice (taken : TakenNames) (own : String) (shape : Shape) :
    let name := claimTypeName taken own ""
    let child := shape.claimName name.2 name.1
    Root.declare taken (.slice own shape) =
      (.synonym name.1 (shape.fieldType child.1) :: (shape.declareRecord child.2 child.1).1,
        (shape.declareRecord child.2 child.1).2) := rfl

theorem Root.declareAll_cons (taken : TakenNames) (root : Root) (roots : List Root) :
    Root.declareAll taken (root :: roots) =
      (root.declare taken).1 ++ Root.declareAll (root.declare taken).2 roots := rfl

theorem claimTypeName_taken (taken : TakenNames) (base parent : String) :
    (claimTypeName taken base parent).2 = (claimTypeName taken base parent).1 :: taken := rfl

/-- Everything that claiming a name does. The own name of a record is taken afterwards, be it by
this record or by an earlier one. -/
theorem claimTypeName_spec (taken : TakenNames) (base parent : String) :
    ∃ name, claimTypeName taken base parent = (name, name :: taken) ∧ name ∉ taken ∧
      base ∈ name :: taken ∧ NamedAfter parent base name := by
  refine ⟨_, rfl, ?_⟩
  by_cases hbase : base ∈ taken
  · have hclaimed : ∀ name, base ∈ name :: taken := fun name => List.mem_cons_of_mem name hbase
    by_cases hprefixed : parent ++ base ∈ taken
    · obtain ⟨n, hn, hnumbered, hfree, -⟩ :=
        Fresh.exists_numbered taken (Fresh.append_toString_injective (parent ++ base))
      rw [if_neg (by simpa using hbase), if_neg (by simpa using hprefixed), hnumbered]
      exact ⟨hfree, hclaimed _, Or.inr (Or.inr ⟨n, hn, rfl⟩)⟩
    · rw [if_neg (by simpa using hbase), if_pos (by simpa using hprefixed)]
      exact ⟨hprefixed, hclaimed _, Or.inr (Or.inl rfl)⟩
  · rw [if_pos (by simpa using hbase)]
    exact ⟨hbase, List.mem_cons_self, Or.inl rfl⟩

/-- The name a field was given names its record, if it holds one. -/
def Field.NamedIn (parent : String) (f : Field) (child : String) : Prop :=
  ∀ r, f.child? = some r → NamedAfter parent r.name child

theorem Shape.namedAfter_claimName {taken : TakenNames} {parent : String} {a : Shape} {r : Record}
    (h : a.record? = some r) : NamedAfter parent r.name (a.claimName taken parent).1 := by
  obtain ⟨name, hclaim, -, -, hnamed⟩ := claimTypeName_spec taken r.name parent
  rw [Shape.claimName, h]
  dsimp only
  rw [hclaim]
  exact hnamed

theorem Field.namedIn_claimNames (taken : TakenNames) (parent : String) (fields : List Field) :
    List.Forall₂ (Field.NamedIn parent) fields (Field.claimNames taken parent fields).1 := by
  induction fields generalizing taken with
  | nil => exact List.Forall₂.nil
  | cons f fields ih =>
    have hhere : f.NamedIn parent (f.shape.claimName taken parent).1 :=
      fun r hr => Shape.namedAfter_claimName hr
    exact List.Forall₂.cons hhere (ih _)

/-- Fields whose records have been given names are laid out in order, if every record inside them
is. -/
theorem Field.laid_declarations {parent : String} {fields : List Field} {children : List String}
    (hnamed : List.Forall₂ (Field.NamedIn parent) fields children)
    (hinside : ∀ f ∈ fields, ∀ r, f.child? = some r → ∀ taken name,
      Record.Laid options name r ((r.declare taken name).1.map (Declaration.block options)))
    (used : List String) (taken : TakenNames) :
    Field.Laid options parent fields
      ((Field.declarations used fields children).map (FieldDeclaration.printed options))
      ((Field.declareRecords taken children fields).1.map (Declaration.block options)) := by
  induction hnamed generalizing used taken with
  | nil => exact Field.Laid.nil
  | @cons f child fields children hhere _ ih =>
    have hmentions := f.shape.mentions_fieldType child
    have hrest := fun taken => ih (fun g hg => hinside g (List.mem_cons_of_mem f hg))
      (FieldName.unique used f.identifier :: used) taken
    have hshows : FieldDeclaration.Shows ⟨f.sourceKey, FieldName.unique used f.identifier,
        f.shape.fieldType child, f.optional, f.sample⟩ f := ⟨rfl, ⟨used, rfl⟩, rfl, rfl⟩
    rw [Field.declarations, Field.declareRecords_cons, f.shape.declareRecord_eq, ← Field.child?,
      List.map_cons, List.map_append]
    rw [Shape.given, ← Field.child?] at hmentions
    cases hchild : f.child? with
    | none =>
      rw [hchild] at hmentions
      obtain ⟨depth, name, hname, htext⟩ := FieldType.text_of_mentions_nil hmentions
      exact Field.Laid.plain hchild (hshows.printed options) hname
        (congrArg (optionText f.optional) htext) (hrest taken)
    | some r =>
      rw [hchild] at hmentions
      obtain ⟨depth, htext⟩ := FieldType.text_of_mentions hmentions
      exact Field.Laid.record hchild (hshows.printed options)
        (congrArg (optionText f.optional) htext) (hhere r hchild)
        (hinside f List.mem_cons_self r hchild taken child) (hrest _)

theorem Record.laid_declare (r : Record) (taken : TakenNames) (name : String) :
    Record.Laid options name r ((r.declare taken name).1.map (Declaration.block options)) := by
  induction r using Record.induct generalizing taken name with
  | hstep own fields hinside =>
    have hnamed := Field.namedIn_claimNames taken name fields
    exact Record.Laid.struct (Field.laid_declarations options hnamed hinside [] _)

theorem Root.laid_declare (taken : TakenNames) (root : Root) :
    Root.Laid options root ((root.declare taken).1.map (Declaration.block options)) := by
  obtain ⟨name, hclaim, -, -, hnamed⟩ := claimTypeName_spec taken root.name ""
  cases root with
  | record r =>
    rw [Root.declare_record, ← Root.name, hclaim]
    exact Root.Laid.record hnamed (r.laid_declare options _ name)
  | slice own shape =>
    have hchildNamed : ∀ r, shape.record? = some r →
        NamedAfter name r.name (shape.claimName (name :: taken) name).1 :=
      fun r hchild => Shape.namedAfter_claimName hchild
    rw [Root.name] at hclaim
    rw [Root.declare_slice, hclaim, List.map_cons, Declaration.block]
    generalize shape.claimName (name :: taken) name = child at hchildNamed ⊢
    have hmentions := shape.mentions_fieldType child.1
    rw [shape.declareRecord_eq]
    cases hchild : shape.record? with
    | none =>
      rw [Shape.given, hchild] at hmentions
      obtain ⟨depth, element, helement, htext⟩ := FieldType.text_of_mentions_nil hmentions
      rw [htext]
      exact Root.Laid.scalars hnamed hchild helement
    | some r =>
      rw [Shape.given, hchild] at hmentions
      obtain ⟨depth, htext⟩ := FieldType.text_of_mentions hmentions
      rw [htext]
      exact Root.Laid.records hnamed hchild (hchildNamed r hchild) (r.laid_declare options _ _)

theorem Root.allLaid_declareAll (taken : TakenNames) (roots : List Root) :
    Root.AllLaid options roots ((Root.declareAll taken roots).map (Declaration.block options)) := by
  induction roots generalizing taken with
  | nil => exact ⟨[], List.Forall₂.nil, rfl⟩
  | cons root roots ih =>
    obtain ⟨parts, hparts, hrest⟩ := ih (root.declare taken).2
    refine ⟨(root.declare taken).1.map (Declaration.block options) :: parts, ?_, ?_⟩
    · exact List.Forall₂.cons (root.laid_declare options taken) hparts
    · rw [Root.declareAll_cons, List.map_append, hrest, List.flatten_cons]

end Exemplar
