import Exemplar.Proofs.Arrangement
import Exemplar.Proofs.Layout

/-!
# The names of the generated types

A name is claimed when the parent of its record is declared, and declared later. What ties the two
together is a count: the names declared by a stretch of the run, with those taken before it, are the
names taken after it and those that had been given to it beforehand.
-/

namespace Exemplar

open List (Perm)
open scoped List

/-- The declarations that are generated for roots. -/
def Root.declarations (options : RenderOptions) (roots : List Root) : List Declaration :=
  Root.declareAll [] (options.arrange roots)

/-- The blocks of the generated code. -/
def Root.blocks (options : RenderOptions) (roots : List Root) : List Block :=
  (Root.declarations options roots).map (Declaration.block options)

/-- The text of the renderer is made of the lines of its blocks. -/
theorem Root.toList_render (options : RenderOptions) (roots : List Root) :
    (render options roots).toList =
      Text.unlines (Block.fileLines options (Root.blocks options roots)) :=
  Declaration.toList_fileText options (Root.declarations options roots)

/-- The names that declarations declare. -/
def Declaration.names (declarations : List Declaration) : List String :=
  declarations.map Declaration.name

/-- The names that were given to the records in fields. -/
def Field.given : List Field → List String → List String
  | f :: fields, child :: children => f.shape.given child ++ given fields children
  | _, _ => []

theorem Field.claimNames_cons (taken : TakenNames) (parent : String) (f : Field)
    (fields : List Field) :
    Field.claimNames taken parent (f :: fields) =
      ((f.shape.claimName taken parent).1 ::
          (Field.claimNames (f.shape.claimName taken parent).2 parent fields).1,
        (Field.claimNames (f.shape.claimName taken parent).2 parent fields).2) := rfl

/-- What holds of the taken names after every claim if it held before it. -/
def KeptByClaims (P : TakenNames → Prop) : Prop :=
  ∀ taken base parent, P taken → P (claimTypeName taken base parent).2

section Preservation

variable {P : TakenNames → Prop} {taken : TakenNames}

theorem Shape.claimName_kept (hP : KeptByClaims P) (parent : String) (a : Shape)
    (h : P taken) : P (a.claimName taken parent).2 := by
  rw [Shape.claimName]
  split
  · exact hP _ _ _ h
  · exact h

theorem Field.claimNames_kept (hP : KeptByClaims P) (parent : String) (fields : List Field)
    (h : P taken) : P (Field.claimNames taken parent fields).2 := by
  induction fields generalizing taken with
  | nil => exact h
  | cons f fields ih => exact ih (Shape.claimName_kept hP parent f.shape h)

theorem Shape.declareRecord_kept_of {a : Shape}
    (hinside : ∀ r, a.record? = some r → ∀ taken name, P taken → P (r.declare taken name).2)
    (child : String) (h : P taken) : P (a.declareRecord taken child).2 := by
  rw [a.declareRecord_eq]
  cases hchild : a.record? with
  | none => exact h
  | some r => exact hinside r hchild taken child h

theorem Field.declareRecords_kept_of {fields : List Field}
    (hinside : ∀ f ∈ fields, ∀ r, f.child? = some r →
      ∀ taken name, P taken → P (r.declare taken name).2)
    (children : List String) (h : P taken) : P (Field.declareRecords taken children fields).2 := by
  induction fields generalizing taken children with
  | nil => exact h
  | cons f fields ih =>
    have hhere : P (f.declareRecord taken (children.headD "")).2 := by
      rw [f.declareRecord_eq]
      exact Shape.declareRecord_kept_of (hinside f List.mem_cons_self) (children.headD "") h
    exact ih (fun g hg => hinside g (List.mem_cons_of_mem f hg)) children.tail hhere

/-- What every claim keeps is kept while a record is declared. -/
theorem Record.declare_kept (hP : KeptByClaims P) (r : Record) (name : String) (h : P taken) :
    P (r.declare taken name).2 := by
  induction r using Record.induct generalizing taken name with
  | hstep own fields hinside =>
    have hfields := Field.claimNames_kept hP name fields h
    exact Field.declareRecords_kept_of (fun f hf r hr _ child => hinside f hf r hr child) _ hfields

theorem Shape.declareRecord_kept (hP : KeptByClaims P) (child : String) (a : Shape)
    (h : P taken) : P (a.declareRecord taken child).2 :=
  Shape.declareRecord_kept_of (fun r _ _ name => Record.declare_kept hP r name) child h

theorem Field.declareRecords_kept (hP : KeptByClaims P) (children : List String)
    (fields : List Field) (h : P taken) : P (Field.declareRecords taken children fields).2 :=
  Field.declareRecords_kept_of (fun _ _ r _ _ name => Record.declare_kept hP r name) children h

theorem Root.declare_kept (hP : KeptByClaims P) (root : Root) (h : P taken) :
    P (root.declare taken).2 := by
  have hname := hP taken root.name "" h
  cases root with
  | record r => exact Record.declare_kept hP r _ hname
  | slice own shape =>
    have hchild := Shape.claimName_kept hP (claimTypeName taken own "").1 shape hname
    exact Shape.declareRecord_kept hP _ shape hchild

end Preservation

theorem keptByClaims_nodup : KeptByClaims List.Nodup := by
  intro taken base parent h
  obtain ⟨name, hclaim, hfree, -, -⟩ := claimTypeName_spec taken base parent
  rw [hclaim]
  exact List.nodup_cons.mpr ⟨hfree, h⟩

theorem Declaration.names_append (xs ys : List Declaration) :
    names (xs ++ ys) = names xs ++ names ys :=
  List.map_append

theorem Shape.claimName_perm (taken : TakenNames) (parent : String) (a : Shape) :
    a.given (a.claimName taken parent).1 ++ taken ~ (a.claimName taken parent).2 := by
  rw [Shape.given, Shape.claimName]
  cases a.record? with
  | none => exact Perm.refl _
  | some r => exact Perm.refl _

/-- Claiming names for fields takes the names that are given to them. -/
theorem Field.claimNames_perm (taken : TakenNames) (parent : String) (fields : List Field) :
    Field.given fields (Field.claimNames taken parent fields).1 ++ taken ~
      (Field.claimNames taken parent fields).2 := by
  induction fields generalizing taken with
  | nil => exact Perm.refl _
  | cons f fields ih =>
    have hhere := f.shape.claimName_perm taken parent
    have hrest := ih (f.shape.claimName taken parent).2
    rw [Field.claimNames_cons, Field.given]
    generalize f.shape.claimName taken parent = here at hhere hrest ⊢
    generalize Field.claimNames here.2 parent fields = rest at hrest ⊢
    calc f.shape.given here.1 ++ Field.given fields rest.1 ++ taken
      _ ~ Field.given fields rest.1 ++ f.shape.given here.1 ++ taken :=
        List.perm_append_comm.append_right taken
      _ = Field.given fields rest.1 ++ (f.shape.given here.1 ++ taken) := List.append_assoc ..
      _ ~ Field.given fields rest.1 ++ here.2 := hhere.append_left _
      _ ~ rest.2 := hrest

theorem Field.length_claimNames (taken : TakenNames) (parent : String) (fields : List Field) :
    (Field.claimNames taken parent fields).1.length = fields.length := by
  induction fields generalizing taken with
  | nil => rfl
  | cons f fields ih => exact congrArg Nat.succ (ih (f.shape.claimName taken parent).2)

/-- The count for a record: what is declared for it, with what was taken before, is its own name
with what is taken afterwards. -/
def Record.Counted (r : Record) : Prop :=
  ∀ taken name, Declaration.names (r.declare taken name).1 ++ taken ~
    name :: (r.declare taken name).2

theorem Shape.names_declareRecord {a : Shape}
    (hinside : ∀ r, a.record? = some r → r.Counted) (taken : TakenNames) (child : String) :
    Declaration.names (a.declareRecord taken child).1 ++ taken ~
      a.given child ++ (a.declareRecord taken child).2 := by
  rw [a.declareRecord_eq, Shape.given]
  cases hchild : a.record? with
  | none => exact Perm.refl _
  | some r => exact hinside r hchild taken child

theorem Field.names_declareRecords {fields : List Field}
    (hinside : ∀ f ∈ fields, ∀ r, f.child? = some r → r.Counted)
    (taken : TakenNames) {children : List String} (hlength : children.length = fields.length) :
    Declaration.names (Field.declareRecords taken children fields).1 ++ taken ~
      Field.given fields children ++ (Field.declareRecords taken children fields).2 := by
  induction fields generalizing taken children with
  | nil =>
    obtain rfl := List.length_eq_zero_iff.mp hlength
    exact Perm.refl _
  | cons f fields ih =>
    cases children with
    | nil => contradiction
    | cons child children =>
      have hhere := Shape.names_declareRecord (hinside f List.mem_cons_self) taken child
      have hrest := ih (fun g hg => hinside g (List.mem_cons_of_mem f hg))
        (f.shape.declareRecord taken child).2 (Nat.succ.inj hlength)
      rw [Field.declareRecords_cons, Field.given, Declaration.names_append]
      generalize f.shape.declareRecord taken child = here at hhere hrest ⊢
      generalize Field.declareRecords here.2 children fields = rest at hrest ⊢
      calc Declaration.names here.1 ++ Declaration.names rest.1 ++ taken
        _ = Declaration.names here.1 ++ (Declaration.names rest.1 ++ taken) :=
          List.append_assoc ..
        _ ~ Declaration.names rest.1 ++ (Declaration.names here.1 ++ taken) :=
          List.perm_append_comm_assoc ..
        _ ~ Declaration.names rest.1 ++ (f.shape.given child ++ here.2) := hhere.append_left _
        _ ~ f.shape.given child ++ (Declaration.names rest.1 ++ here.2) :=
          List.perm_append_comm_assoc ..
        _ ~ f.shape.given child ++ (Field.given fields children ++ rest.2) := hrest.append_left _
        _ = f.shape.given child ++ Field.given fields children ++ rest.2 :=
          (List.append_assoc ..).symm

theorem Record.counted (r : Record) : r.Counted := by
  induction r using Record.induct with
  | hstep own fields hinside =>
    intro taken name
    have hclaimed := Field.claimNames_perm taken name fields
    have hlength := Field.length_claimNames taken name fields
    have hdeclared := Field.names_declareRecords hinside (Field.claimNames taken name fields).2
      hlength
    rw [Record.declare_mk]
    generalize Field.claimNames taken name fields = children at hclaimed hdeclared ⊢
    generalize Field.declareRecords children.2 children.1 fields = rest at hdeclared ⊢
    apply Perm.cons
    refine (List.perm_append_left_iff (Field.given fields children.1)).mp ?_
    calc Field.given fields children.1 ++ (Declaration.names rest.1 ++ taken)
      _ ~ Declaration.names rest.1 ++ (Field.given fields children.1 ++ taken) :=
        List.perm_append_comm_assoc ..
      _ ~ Declaration.names rest.1 ++ children.2 := hclaimed.append_left _
      _ ~ Field.given fields children.1 ++ rest.2 := hdeclared

/-- What is declared for a root is what is taken by it. -/
theorem Root.names_declare (taken : TakenNames) (root : Root) :
    Declaration.names (root.declare taken).1 ++ taken ~ (root.declare taken).2 := by
  cases root with
  | record r =>
    have hcount := r.counted (claimTypeName taken r.name "").2 (claimTypeName taken r.name "").1
    rw [claimTypeName_taken] at hcount
    rw [Root.declare_record, claimTypeName_taken]
    exact (List.perm_cons _).mp (List.perm_middle.symm.trans hcount)
  | slice own shape =>
    have hclaim := claimTypeName_taken taken own ""
    rw [Root.declare_slice]
    generalize claimTypeName taken own "" = name at hclaim ⊢
    have hclaimed := shape.claimName_perm name.2 name.1
    generalize shape.claimName name.2 name.1 = child at hclaimed ⊢
    have hdeclared := Shape.names_declareRecord (fun r (_ : shape.record? = some r) => r.counted)
      child.2 child.1
    generalize shape.declareRecord child.2 child.1 = inner at hdeclared ⊢
    refine (List.perm_append_left_iff (shape.given child.1)).mp ?_
    calc shape.given child.1 ++ (name.1 :: Declaration.names inner.1 ++ taken)
      _ ~ shape.given child.1 ++ (Declaration.names inner.1 ++ name.2) := by
        rw [hclaim]
        exact List.perm_middle.symm.append_left _
      _ ~ Declaration.names inner.1 ++ (shape.given child.1 ++ name.2) :=
        List.perm_append_comm_assoc ..
      _ ~ Declaration.names inner.1 ++ child.2 := hclaimed.append_left _
      _ ~ shape.given child.1 ++ inner.2 := hdeclared

theorem Root.nodup_declareAll {taken : TakenNames} (roots : List Root) (h : taken.Nodup) :
    (Declaration.names (Root.declareAll taken roots) ++ taken).Nodup := by
  induction roots generalizing taken with
  | nil => exact h
  | cons root roots ih =>
    have hhere := root.names_declare taken
    have hrest := ih (root.declare_kept keptByClaims_nodup h)
    rw [Root.declareAll_cons, Declaration.names_append]
    generalize root.declare taken = here at hhere hrest ⊢
    generalize Root.declareAll here.2 roots = rest at hrest ⊢
    have hall : Declaration.names here.1 ++ Declaration.names rest ++ taken ~
        Declaration.names rest ++ here.2 := by
      rw [List.append_assoc]
      exact (List.perm_append_comm_assoc ..).trans (hhere.append_left _)
    exact hall.nodup_iff.mpr hrest

theorem Root.nodup_names_declarations (options : RenderOptions) (roots : List Root) :
    (Declaration.names (Root.declarations options roots)).Nodup := by
  have h := Root.nodup_declareAll (options.arrange roots) List.nodup_nil
  rwa [List.append_nil] at h

/-- The entries of structs stand for the fields of records, struct by struct and entry by entry. -/
def Declaration.Show (declarations : List Declaration) (records : List Record) : Prop :=
  List.Forall₂ (fun entries (r : Record) => List.Forall₂ FieldDeclaration.Shows entries r.fields)
    (declarations.filterMap Declaration.entries?) records

/-- The structs among the declarations are those of the records, struct by struct: a struct declares
the fields of its record, under names for the records in them. -/
def Declaration.Drawn (declarations : List Declaration) (records : List Record) : Prop :=
  List.Forall₂ (fun entries (r : Record) => ∃ children : List String,
      children.length = r.fields.length ∧ entries = Field.declarations [] r.fields children)
    (declarations.filterMap Declaration.entries?) records

theorem Declaration.Drawn.append {xs ys : List Declaration} {rs ss : List Record}
    (hxs : Drawn xs rs) (hys : Drawn ys ss) : Drawn (xs ++ ys) (rs ++ ss) := by
  rw [Drawn, List.filterMap_append]
  exact List.rel_append hxs hys

/-- What holds of the entries for a record, whatever names the records in its fields are given,
holds of the structs of all records. -/
theorem Declaration.Drawn.forall₂ {declarations : List Declaration} {records : List Record}
    {P : Record → Prop} {Q : List FieldDeclaration → Record → Prop}
    (hdrawn : Drawn declarations records) (hrecords : ∀ r ∈ records, P r)
    (hQ : ∀ r, P r → ∀ children : List String, children.length = r.fields.length →
      Q (Field.declarations [] r.fields children) r) :
    List.Forall₂ Q (declarations.filterMap Declaration.entries?) records := by
  rw [Drawn] at hdrawn
  generalize declarations.filterMap Declaration.entries? = structs at hdrawn ⊢
  induction hdrawn with
  | nil => exact List.Forall₂.nil
  | cons hentries _ ih =>
    obtain ⟨hr, hlater⟩ := List.forall_mem_cons.mp hrecords
    obtain ⟨children, hlength, rfl⟩ := hentries
    exact List.Forall₂.cons (hQ _ hr children hlength) (ih hlater)

theorem Shape.drawn_declareRecord {a : Shape}
    (hinside : ∀ r, a.record? = some r → ∀ taken name,
      Declaration.Drawn (r.declare taken name).1 r.records)
    (taken : TakenNames) (child : String) :
    Declaration.Drawn (a.declareRecord taken child).1 a.records := by
  rw [a.declareRecord_eq, a.records_of_record?]
  cases hchild : a.record? with
  | none => exact List.Forall₂.nil
  | some r => exact hinside r hchild taken child

theorem Field.drawn_declareRecords {fields : List Field}
    (hinside : ∀ f ∈ fields, ∀ r, f.child? = some r → ∀ taken name,
      Declaration.Drawn (r.declare taken name).1 r.records)
    (taken : TakenNames) (children : List String) :
    Declaration.Drawn (Field.declareRecords taken children fields).1
      (fields.flatMap fun f => f.shape.records) := by
  induction fields generalizing taken children with
  | nil => exact List.Forall₂.nil
  | cons f fields ih =>
    have hhere : Declaration.Drawn (f.declareRecord taken (children.headD "")).1
        f.shape.records := by
      rw [f.declareRecord_eq]
      exact Shape.drawn_declareRecord (hinside f List.mem_cons_self) taken _
    exact hhere.append (ih (fun g hg => hinside g (List.mem_cons_of_mem f hg)) _ children.tail)

theorem Record.drawn_declare (r : Record) (taken : TakenNames) (name : String) :
    Declaration.Drawn (r.declare taken name).1 r.records := by
  induction r using Record.induct generalizing taken name with
  | hstep own fields hinside =>
    have hlength := Field.length_claimNames taken name fields
    rw [Record.declare_mk, Record.records_eq]
    exact List.Forall₂.cons ⟨_, hlength, rfl⟩ (Field.drawn_declareRecords hinside _ _)

theorem Root.drawn_declare (taken : TakenNames) (root : Root) :
    Declaration.Drawn (root.declare taken).1 root.records := by
  cases root with
  | record r => exact r.drawn_declare _ _
  | slice own shape => exact Shape.drawn_declareRecord (fun r _ => r.drawn_declare) _ _

theorem Root.drawn_declareAll (taken : TakenNames) (roots : List Root) :
    Declaration.Drawn (Root.declareAll taken roots) (roots.flatMap Root.records) := by
  induction roots generalizing taken with
  | nil => exact List.Forall₂.nil
  | cons root roots ih => exact (root.drawn_declare taken).append (ih _)

theorem Field.shows_declarations {fields : List Field} {children : List String}
    (hlength : children.length = fields.length) (used : List String) :
    List.Forall₂ FieldDeclaration.Shows (Field.declarations used fields children) fields := by
  induction fields generalizing children used with
  | nil =>
    obtain rfl := List.length_eq_zero_iff.mp hlength
    exact List.Forall₂.nil
  | cons f fields ih =>
    cases children with
    | nil => contradiction
    | cons child children =>
      exact List.Forall₂.cons ⟨rfl, ⟨used, rfl⟩, rfl, rfl⟩ (ih (Nat.succ.inj hlength) _)

theorem Root.show_declarations (options : RenderOptions) (roots : List Root) :
    Declaration.Show (Root.declarations options roots)
      ((options.arrange roots).flatMap Root.records) := by
  refine (Root.drawn_declareAll [] (options.arrange roots)).imp ?_
  rintro entries r ⟨children, hlength, rfl⟩
  exact Field.shows_declarations hlength []

/-- The structs among blocks show the fields of records, struct by struct and field by field. -/
def Block.Show (options : RenderOptions) (blocks : List Block) (records : List Record) : Prop :=
  List.Forall₂ (fun printed (r : Record) =>
      List.Forall₂ (PrintedField.Shows options) printed r.fields)
    (blocks.filterMap Block.fields?) records

theorem Field.shows_printed (options : RenderOptions) {fields : List Field} {children : List String}
    (hlength : children.length = fields.length) (used : List String) :
    List.Forall₂ (PrintedField.Shows options)
      ((Field.declarations used fields children).map (FieldDeclaration.printed options))
      fields := by
  rw [List.forall₂_map_left_iff]
  exact (Field.shows_declarations hlength used).imp fun entry f h => h.printed options

/-- What holds of the fields that are printed for a record, whatever names the records in them are
given, holds of the structs among the blocks. -/
theorem Root.forall₂_structs (options : RenderOptions) {roots : List Root} {P : Record → Prop}
    {Q : List PrintedField → Record → Prop}
    (hrecords : ∀ r ∈ (options.arrange roots).flatMap Root.records, P r)
    (hQ : ∀ r, P r → ∀ children : List String, children.length = r.fields.length →
      Q ((Field.declarations [] r.fields children).map (FieldDeclaration.printed options)) r) :
    List.Forall₂ Q ((Root.blocks options roots).filterMap Block.fields?)
      ((options.arrange roots).flatMap Root.records) := by
  have hdrawn : Declaration.Drawn (Root.declarations options roots)
      ((options.arrange roots).flatMap Root.records) := Root.drawn_declareAll [] _
  have hstructs : (Root.blocks options roots).filterMap Block.fields? =
      ((Root.declarations options roots).filterMap Declaration.entries?).map
        (·.map (FieldDeclaration.printed options)) := by
    rw [Root.blocks, List.filterMap_map, List.map_filterMap]
    exact List.filterMap_congr fun d _ => d.fields?_block options
  rw [hstructs, List.forall₂_map_left_iff]
  exact hdrawn.forall₂ hrecords hQ

theorem Root.show_blocks (options : RenderOptions) (roots : List Root) :
    Block.Show options (Root.blocks options roots) ((options.arrange roots).flatMap Root.records) :=
  Root.forall₂_structs options (fun _ _ => trivial)
    fun _ _ _ hlength => Field.shows_printed options hlength []

theorem Root.names_blocks (options : RenderOptions) (roots : List Root) :
    (Root.blocks options roots).map Block.name =
      Declaration.names (Root.declarations options roots) := by
  rw [Root.blocks, List.map_map]
  exact List.map_congr_left fun d _ => d.name_block options

/-- The names of the generated types are distinct, and references resolve: the lines of the text are
those of blocks of distinct names which are laid out for the roots, with one struct for each record,
and a type that holds a record is made of the name of its block. -/
theorem Root.declarations_resolve (options : RenderOptions) (roots : List Root) :
    ∃ blocks : List Block,
      (render options roots).toList = Text.unlines (Block.fileLines options blocks) ∧
      (blocks.map Block.name).Nodup ∧
      Root.AllLaid options (options.arrange roots) blocks ∧
      Block.Show options blocks ((options.arrange roots).flatMap Root.records) ∧
      (options.arrange roots).flatMap Root.records ~
        (roots.flatMap Root.records).map options.arrangeRecord := by
  refine ⟨Root.blocks options roots, Root.toList_render options roots, ?_,
    Root.allLaid_declareAll options [] (options.arrange roots), Root.show_blocks options roots,
    options.records_arrange_perm roots⟩
  rw [Root.names_blocks]
  exact Root.nodup_names_declarations options roots

/-- A record that meets its name in another branch is named after its parent. -/
example :
    let holding (key name : String) (r : Record) := Field.plain key name (.struct r)
    let item : Record := ⟨"Item", []⟩
    let root : Record := ⟨"Root", [holding "a" "A" ⟨"A", [holding "item" "Item" item]⟩,
      holding "b" "B" ⟨"B", [holding "item" "Item" item]⟩]⟩
    Declaration.names (Root.declarations {} [.record root]) =
      ["Root", "A", "Item", "B", "BItem"] := by
  decide +kernel

end Exemplar
