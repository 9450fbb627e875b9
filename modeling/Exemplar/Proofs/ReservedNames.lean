import Exemplar.Proofs.InferredRoots
import Exemplar.Proofs.TypeNames

/-!
# Names that the generated code relies on

The generated code writes some standard names without a path, and a declared type of such a name
would take their place. Names are claimed without regard to this: a record whose own name is
standard keeps it, or another declaration has it already. Names that are made of a parent's name,
or bear a number, are never standard.
-/

namespace Exemplar

/-- The keyword for the type itself, and the names that are written with their standard meaning. -/
def RenderOptions.reliedOn (options : RenderOptions) : List String :=
  ["Self", "String", "Vec", "Option"] ++
    if options.deriveSerde then ["Serialize", "Deserialize"] else []

/-- The names that a root itself has: its own and those of its records. -/
def Root.names (root : Root) : List String :=
  root.name :: root.records.map Record.name

/-! Every name of a root is taken in the end. -/

theorem keptByClaims_mem (name : String) : KeptByClaims (name ∈ ·) :=
  fun _ _ _ h => List.mem_cons_of_mem _ h

theorem mem_claimTypeName (taken : TakenNames) (base parent : String) :
    base ∈ (claimTypeName taken base parent).2 := by
  obtain ⟨name, hclaim, -, hbase, -⟩ := claimTypeName_spec taken base parent
  rw [hclaim]
  exact hbase

theorem Shape.mem_claimName {taken : TakenNames} {parent : String} {a : Shape} {r : Record}
    (h : a.record? = some r) : r.name ∈ (a.claimName taken parent).2 := by
  rw [Shape.claimName, h]
  exact mem_claimTypeName taken r.name parent

theorem Field.mem_claimNames {parent : String} {fields : List Field} {f : Field} (hf : f ∈ fields)
    {r : Record} (h : f.child? = some r) (taken : TakenNames) :
    r.name ∈ (Field.claimNames taken parent fields).2 := by
  induction fields generalizing taken with
  | nil => exact absurd hf List.not_mem_nil
  | cons g fields ih =>
    rw [Field.claimNames_cons]
    rcases List.mem_cons.mp hf with rfl | hf
    · exact Field.claimNames_kept (keptByClaims_mem r.name) parent fields (Shape.mem_claimName h)
    · exact ih hf _

/-- The names of the records that were still to be declared are taken, and so are those of the
records inside them. -/
def Record.Claims (r : Record) : Prop :=
  ∀ taken name, ∀ inner ∈ r.records, inner = r ∨ inner.name ∈ (r.declare taken name).2

theorem Field.mem_declareRecords {fields : List Field} {f : Field} (hf : f ∈ fields) {r : Record}
    (h : f.child? = some r) (hclaims : r.Claims) {taken : TakenNames} (hname : r.name ∈ taken)
    {children : List String} (hlength : children.length = fields.length) :
    ∀ inner ∈ r.records, inner.name ∈ (Field.declareRecords taken children fields).2 := by
  intro inner hinner
  induction fields generalizing taken children with
  | nil => exact absurd hf List.not_mem_nil
  | cons g fields ih =>
    cases children with
    | nil => contradiction
    | cons child children =>
      have hkept : ∀ name ∈ taken, name ∈ (g.shape.declareRecord taken child).2 := fun name hmem =>
        Shape.declareRecord_kept (keptByClaims_mem name) child g.shape hmem
      rw [Field.declareRecords_cons]
      rcases List.mem_cons.mp hf with rfl | hf
      · have hhere : inner.name ∈ (f.shape.declareRecord taken child).2 := by
          rcases hclaims taken child inner hinner with rfl | hmem
          · exact hkept _ hname
          · rwa [f.shape.declareRecord_eq, ← Field.child?, h]
        exact Field.declareRecords_kept (keptByClaims_mem inner.name) children fields hhere
      · exact ih hf (hkept _ hname) (Nat.succ.inj hlength)

theorem Record.claims (r : Record) : r.Claims := by
  induction r using Record.induct with
  | hstep own fields hinside =>
    intro taken name inner hinner
    rcases Record.mem_records.mp hinner with rfl | ⟨f, hf, hinner⟩
    · exact Or.inl rfl
    · obtain ⟨r, hchild, hinner⟩ := Shape.mem_records.mp hinner
      have hname : r.name ∈ (Field.claimNames taken name fields).2 :=
        Field.mem_claimNames hf hchild taken
      have hlength := Field.length_claimNames taken name fields
      rw [Record.declare_mk]
      exact Or.inr (Field.mem_declareRecords hf hchild (hinside f hf r hchild) hname hlength
        inner hinner)

theorem Root.mem_declare (taken : TakenNames) (root : Root) :
    ∀ name ∈ root.names, name ∈ (root.declare taken).2 := by
  have hown := mem_claimTypeName taken root.name ""
  cases root with
  | record r =>
    have hkept := Record.declare_kept (keptByClaims_mem r.name) r
      (claimTypeName taken r.name "").1 hown
    refine List.forall_mem_cons.mpr ⟨hkept, fun name hname => ?_⟩
    obtain ⟨inner, hinner, rfl⟩ := List.mem_map.mp hname
    rcases r.claims _ (claimTypeName taken r.name "").1 inner hinner with rfl | hmem
    · exact hkept
    · exact hmem
  | slice own shape =>
    have hdeclared : ∀ {child : String} {name : String} {taken : TakenNames}, name ∈ taken →
        name ∈ (shape.declareRecord taken child).2 :=
      fun hmem => Shape.declareRecord_kept (keptByClaims_mem _) _ shape hmem
    rw [Root.declare_slice]
    refine List.forall_mem_cons.mpr ⟨?_, fun name hname => ?_⟩
    · exact hdeclared (Shape.claimName_kept (keptByClaims_mem own) _ shape hown)
    · obtain ⟨inner, hinner, rfl⟩ := List.mem_map.mp hname
      obtain ⟨r, hchild, hinner⟩ := Shape.mem_records.mp hinner
      rcases r.claims (shape.claimName _ _).2 (shape.claimName _ _).1 inner hinner with rfl | hmem
      · exact hdeclared (Shape.mem_claimName hchild)
      · rwa [shape.declareRecord_eq, hchild]

theorem Root.mem_declareAll {roots : List Root} {root : Root} (hroot : root ∈ roots)
    {name : String} (hname : name ∈ root.names) (taken : TakenNames) :
    name ∈ Declaration.names (Root.declareAll taken roots) ++ taken := by
  induction roots generalizing taken with
  | nil => exact absurd hroot List.not_mem_nil
  | cons first roots ih =>
    have hcount := first.names_declare taken
    rw [Root.declareAll_cons, Declaration.names_append]
    have hsplit : name ∈ Declaration.names (Root.declareAll (first.declare taken).2 roots) ++
        (first.declare taken).2 := by
      rcases List.mem_cons.mp hroot with rfl | hroot
      · exact List.mem_append_right _ (root.mem_declare taken name hname)
      · exact ih hroot _
    rcases List.mem_append.mp hsplit with hrest | htaken
    · exact List.mem_append_left _ (List.mem_append_right _ hrest)
    · rcases List.mem_append.mp (hcount.mem_iff.mpr htaken) with hhere | hbefore
      · exact List.mem_append_left _ (List.mem_append_left _ hhere)
      · exact List.mem_append_right _ hbefore

/-! A standard name that is declared is one that a root has. -/

/-- A name that is not made of several: no capital follows its first letter, and no digit. -/
def IsPlain (name : String) : Prop :=
  ∀ c ∈ name.toList.tail, ¬c.isUpper ∧ ¬c.isDigit

theorem RenderOptions.isPlain_of_reliedOn {options : RenderOptions} {name : String}
    (h : name ∈ options.reliedOn) : IsPlain name := by
  have hall : ∀ name ∈ ["Self", "String", "Vec", "Option", "Serialize", "Deserialize"],
      name.toList.tail.all fun c => !c.isUpper && !c.isDigit := by
    decide
  have hmem : name ∈ ["Self", "String", "Vec", "Option", "Serialize", "Deserialize"] := by
    rw [RenderOptions.reliedOn] at h
    rcases List.mem_append.mp h with h | h
    · exact List.mem_append_left ["Serialize", "Deserialize"] h
    · refine List.mem_append_right ["Self", "String", "Vec", "Option"] ?_
      split at h
      · exact h
      · exact absurd h List.not_mem_nil
  intro c hc
  have := List.all_eq_true.mp (hall name hmem) c hc
  simpa using this

theorem NamedAfter.proper {parent own name : String} (h : NamedAfter parent own name)
    (hown : Identifier.Proper own) (hparent : parent = "" ∨ Identifier.Proper parent) :
    Identifier.Proper name := by
  have hprefixed : Identifier.Proper (parent ++ own) := by
    rcases hparent with rfl | hparent
    · rwa [String.empty_append]
    · exact hparent.append hown.isAlphanum
  rcases h with rfl | rfl | ⟨n, -, rfl⟩
  · exact hown
  · exact hprefixed
  · exact hprefixed.append_digits fun c hc => Fresh.isDigit_of_mem_toString hc

/-- Only the own name of a record is plain among the names that it can be given. -/
theorem NamedAfter.eq_of_isPlain {parent own name : String} (h : NamedAfter parent own name)
    (hown : Identifier.Proper own) (hparent : parent = "" ∨ Identifier.Proper parent)
    (hplain : IsPlain name) : name = own := by
  obtain ⟨first, rest, hlist, hfirst, -⟩ := hown
  rcases h with rfl | rfl | ⟨n, -, rfl⟩
  · rfl
  · rcases hparent with rfl | ⟨c, text, hparent, -, -⟩
    · exact String.empty_append
    · -- the first letter of the own name is a capital within the name
      have hmem : first ∈ (parent ++ own).toList.tail := by
        simp [String.toList_append, hparent, hlist]
      exact absurd hfirst (hplain first hmem).1
  · obtain ⟨digit, hdigit⟩ := List.exists_mem_of_ne_nil _ (Fresh.toList_toString_ne_nil n)
    have hmem : digit ∈ (parent ++ own ++ toString n).toList.tail := by
      rw [String.toList_append, List.tail_append_of_ne_nil (by simp [hlist])]
      exact List.mem_append_right _ hdigit
    exact absurd (Fresh.isDigit_of_mem_toString hdigit) (hplain digit hmem).2

variable {options : RenderOptions}

/-- The blocks of a record under a name that it can be given bring no other plain names than those
that its records have. -/
def Record.PlainWithin (options : RenderOptions) (r : Record) : Prop :=
  ∀ parent name own, Record.Laid options name r own → NamedAfter parent r.name name →
    (parent = "" ∨ Identifier.Proper parent) →
    (∀ inner ∈ r.records, Identifier.Proper inner.name) →
    ∀ plain ∈ own.map Block.name, IsPlain plain → plain ∈ r.records.map Record.name

theorem Field.Laid.plain_mem {parent : String} {fields : List Field}
    {printed : List PrintedField} {inner : List Block}
    (h : Field.Laid options parent fields printed inner) (hparent : Identifier.Proper parent)
    (hnames : ∀ f ∈ fields, ∀ r ∈ f.shape.records, Identifier.Proper r.name)
    (hinside : ∀ f ∈ fields, ∀ r, f.child? = some r → r.PlainWithin options) {plain : String}
    (hdeclared : plain ∈ inner.map Block.name) (hplain : IsPlain plain) :
    plain ∈ (fields.flatMap fun f => f.shape.records).map Record.name := by
  induction fields generalizing printed inner with
  | nil =>
    cases h
    exact absurd hdeclared List.not_mem_nil
  | cons f fields ih =>
    obtain ⟨hhere, hlater⟩ := List.forall_mem_cons.mp hnames
    obtain ⟨hwithin, hinside⟩ := List.forall_mem_cons.mp hinside
    rw [List.flatMap_cons, List.map_append]
    cases h with
    | plain _ _ _ _ hrest => exact List.mem_append_right _ (ih hrest hlater hinside hdeclared)
    | @record _ child _ _ r _ _ _ own inner hchild _ _ hnamed hown hrest =>
      rw [List.map_append] at hdeclared
      rcases List.mem_append.mp hdeclared with hdeclared | hdeclared
      · rw [Shape.records_eq hchild] at hhere ⊢
        exact List.mem_append_left _ (hwithin r hchild parent child own hown hnamed
          (Or.inr hparent) hhere plain hdeclared hplain)
      · exact List.mem_append_right _ (ih hrest hlater hinside hdeclared)

theorem Record.plainWithin (r : Record) : r.PlainWithin options := by
  induction r using Record.induct with
  | hstep recordName fields hinside =>
    intro parent name own hlaid hnamed hparent hnames plain hdeclared hplain
    obtain ⟨hown, hfields⟩ := Record.forall_mem_records.mp hnames
    rw [Record.records_eq, List.map_cons]
    cases hlaid with
    | struct hlaid =>
      rcases List.mem_cons.mp hdeclared with rfl | hdeclared
      · exact List.mem_cons.mpr (Or.inl (hnamed.eq_of_isPlain hown hparent hplain))
      · have hproper := hnamed.proper hown hparent
        exact List.mem_cons_of_mem _ (hlaid.plain_mem hproper hfields hinside hdeclared hplain)

theorem Root.Laid.plain_mem {root : Root} {own : List Block} (h : Root.Laid options root own)
    (hnames : ∀ name ∈ root.names, Identifier.Proper name) {plain : String}
    (hdeclared : plain ∈ own.map Block.name) (hplain : IsPlain plain) :
    plain ∈ root.names := by
  obtain ⟨hroot, hrecords⟩ := List.forall_mem_cons.mp hnames
  rw [List.forall_mem_map] at hrecords
  cases h with
  | @record name r _ hnamed hown =>
    exact List.mem_cons_of_mem _ (r.plainWithin "" name own hown hnamed (Or.inl rfl) hrecords
      plain hdeclared hplain)
  | scalars hnamed _ _ =>
    obtain rfl := List.mem_singleton.mp hdeclared
    exact List.mem_cons.mpr (Or.inl (hnamed.eq_of_isPlain hroot (Or.inl rfl) hplain))
  | @records own name child _ shape r inner hnamed hchild hchildNamed hinner =>
    have hinside : Root.records (.slice own shape) = r.records := Shape.records_eq hchild
    rw [hinside] at hrecords
    rw [Root.names, hinside]
    rcases List.mem_cons.mp hdeclared with rfl | hdeclared
    · exact List.mem_cons.mpr (Or.inl (hnamed.eq_of_isPlain hroot (Or.inl rfl) hplain))
    · have hproper := hnamed.proper hroot (Or.inl rfl)
      exact List.mem_cons_of_mem _ (r.plainWithin name child inner hinner hchildNamed
        (Or.inr hproper) hrecords plain hdeclared hplain)

theorem Root.AllLaid.plain_mem {roots : List Root} {blocks : List Block}
    (h : Root.AllLaid options roots blocks)
    (hnames : ∀ root ∈ roots, ∀ name ∈ root.names, Identifier.Proper name) {plain : String}
    (hdeclared : plain ∈ blocks.map Block.name) (hplain : IsPlain plain) :
    ∃ root ∈ roots, plain ∈ root.names := by
  obtain ⟨parts, hparts, rfl⟩ := h
  induction hparts with
  | nil => exact absurd hdeclared List.not_mem_nil
  | @cons root own roots parts hroot _ ih =>
    obtain ⟨hhere, hlater⟩ := List.forall_mem_cons.mp hnames
    rw [List.flatten_cons, List.map_append] at hdeclared
    rcases List.mem_append.mp hdeclared with hdeclared | hdeclared
    · exact ⟨root, List.mem_cons_self, hroot.plain_mem hhere hdeclared hplain⟩
    · obtain ⟨other, hother, hmem⟩ := ih hlater hdeclared
      exact ⟨other, List.mem_cons_of_mem root hother, hmem⟩

/-! The order of the fields makes no difference to the names. -/

theorem Root.names_sorted_perm (root : Root) : root.sorted.names.Perm root.names := by
  have hnames :
      (root.records.map Record.sorted).map Record.name = root.records.map Record.name := by
    rw [List.map_map]
    exact List.map_congr_left fun r _ => r.name_sorted
  rw [Root.names, Root.names, root.name_sorted, ← hnames]
  exact (root.records_sorted_perm.map Record.name).cons root.name

theorem RenderOptions.exists_arrange_iff (options : RenderOptions) (roots : List Root)
    (name : String) :
    (∃ root ∈ options.arrange roots, name ∈ root.names) ↔ ∃ root ∈ roots, name ∈ root.names := by
  rw [RenderOptions.arrange]
  split
  · simp only [List.mem_map, exists_exists_and_eq_and, (Root.names_sorted_perm _).mem_iff]
  · rfl

/-- The names that documents are given are proper, whatever text they come from. -/
theorem Root.proper_documentName (initialisms : Initialisms) (key : String) (count index : Nat) :
    Identifier.Proper (Root.documentName (Identifier.ofKey initialisms key) count index) := by
  have hkey := Identifier.proper_ofKey initialisms key
  rw [Root.documentName]
  split
  · exact hkey
  · exact hkey.append_digits fun c hc => Fresh.isDigit_of_mem_toString hc

theorem Root.Inferred.proper_of_mem_names {root : Root} (h : root.Inferred)
    (hname : Identifier.Proper root.name) : ∀ name ∈ root.names, Identifier.Proper name := by
  refine List.forall_mem_cons.mpr ⟨hname, ?_⟩
  rw [List.forall_mem_map]
  exact h.proper_names hname

/-- A standard name is declared just where a root, or one of its records, has it as its own name. So
nothing keeps standard names from being declared, and nothing but such a root makes them. -/
theorem Root.reliedOn_mem_declarations (options : RenderOptions) {roots : List Root}
    (hroots : ∀ root ∈ roots, root.Inferred ∧ Identifier.Proper root.name) {name : String}
    (hname : name ∈ options.reliedOn) :
    name ∈ Declaration.names (Root.declarations options roots) ↔
      ∃ root ∈ roots, name ∈ root.names := by
  have hproper : ∀ root ∈ options.arrange roots, ∀ name ∈ root.names, Identifier.Proper name := by
    intro root hroot name hmem
    obtain ⟨other, hother, hmem⟩ :=
      (options.exists_arrange_iff roots name).mp ⟨root, hroot, hmem⟩
    obtain ⟨hinferred, hname⟩ := hroots other hother
    exact hinferred.proper_of_mem_names hname name hmem
  rw [← options.exists_arrange_iff]
  constructor
  · intro hdeclared
    rw [← Root.names_blocks] at hdeclared
    exact (Root.allLaid_declareAll options [] _).plain_mem hproper hdeclared
      (RenderOptions.isPlain_of_reliedOn hname)
  · rintro ⟨root, hroot, hmem⟩
    have htaken := Root.mem_declareAll hroot hmem []
    rwa [List.append_nil] at htaken

/-- A key of which the type itself takes its name, deep inside an array. -/
theorem Root.reliedOn_mem_declarations_of_array :
    let d : Value := .array [.array [.object [("self", .object [("vec", .integer 1)])]]]
    let options : RenderOptions := { sortFields := true }
    ∃ described, Root.ofDocument Initialisms.standard "Root" 0 d = .ok described ∧
      (∀ root ∈ [described.result], root.Inferred ∧ Identifier.Proper root.name) ∧
      "Self" ∈ options.reliedOn ∧
      ("Self" ∈ Declaration.names (Root.declarations options [described.result]) ↔
        ∃ root ∈ [described.result], "Self" ∈ root.names) ∧
      Declaration.names (Root.declarations options [described.result]) =
        ["Root", "RootItem", "Self"] := by
  intro d options
  obtain ⟨described, hdescribed⟩ :
    ∃ described, Root.ofDocument Initialisms.standard "Root" 0 d = .ok described := ⟨_, rfl⟩
  have hinferred : described.result.Inferred :=
    ⟨Initialisms.standard, "Root", 0, d, described, by decide, hdescribed, rfl⟩
  have hproper : Identifier.Proper described.result.name := by
    obtain rfl := Except.ok.inj hdescribed
    exact ⟨'R', ['o', 'o', 't'], rfl, rfl, List.all_eq_true.mp rfl⟩
  have hroots : ∀ root ∈ [described.result], root.Inferred ∧ Identifier.Proper root.name :=
    List.forall_mem_singleton.mpr ⟨hinferred, hproper⟩
  refine ⟨described, hdescribed, hroots, by decide,
    Root.reliedOn_mem_declarations options hroots (by decide), ?_⟩
  obtain rfl := Except.ok.inj hdescribed
  decide +kernel

/-- An object under the key `string` makes a type that takes the place of the standard one. -/
theorem Root.string_mem_declarations :
    let d : Value := .object [("string", .object [("a", .string "x")])]
    d.keysDistinct ∧ ∃ described,
      Root.ofDocument Initialisms.standard (Identifier.ofKey Initialisms.standard "root") 0 d =
          .ok described ∧
        "String" ∈ RenderOptions.reliedOn {} ∧
        "String" ∈ Declaration.names (Root.declarations {} [described.result]) := by
  intro d
  exact ⟨by decide, _, rfl, by decide, by decide +kernel⟩

end Exemplar
