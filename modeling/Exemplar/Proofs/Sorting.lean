import Mathlib.Data.List.Forall2
import Mathlib.Data.List.Nodup
import Exemplar.Proofs.Arrangement
import Exemplar.Proofs.Utf8

/-!
# Sorting is a canonical form

Two records may differ in nothing but the order of fields, in themselves and in the records inside
them. Sorting keeps a record up to such a difference, and if no record has two fields of one
identifier, it makes all records equal that differ in no other way. The order is that of the bytes
of the identifiers.
-/

namespace Exemplar

/-! Records in another order -/

mutual

/-- A shape with the fields of the records inside it in any order. -/
inductive Shape.Reordered : Shape → Shape → Prop where
  | scalar (kind : ScalarKind) : Shape.Reordered (.scalar kind) (.scalar kind)
  | struct {r s : Record} (h : Record.Reordered r s) : Shape.Reordered (.struct r) (.struct s)
  | structSlice {r s : Record} (h : Record.Reordered r s) :
    Shape.Reordered (.structSlice r) (.structSlice s)
  | slice {a b : Shape} (h : Shape.Reordered a b) : Shape.Reordered (.slice a) (.slice b)
  | anySlice : Shape.Reordered .anySlice .anySlice
  | any : Shape.Reordered .any .any

/-- A record with its fields, and those of the records inside it, in any order. -/
inductive Record.Reordered : Record → Record → Prop where
  | mk {name : String} {fs gs hs : List Field} (h : List.Forall₂ Field.Reordered fs gs)
    (hperm : gs.Perm hs) : Record.Reordered ⟨name, fs⟩ ⟨name, hs⟩

/-- A field with nothing changed but the order of fields inside its shape. -/
inductive Field.Reordered : Field → Field → Prop where
  | mk {sourceKey identifier : String} {a b : Shape} {optional : Bool} {sample : Option Value}
    (h : Shape.Reordered a b) :
    Field.Reordered ⟨sourceKey, identifier, a, optional, sample⟩
      ⟨sourceKey, identifier, b, optional, sample⟩

end

/-- A root with the fields of its records in any order. -/
inductive Root.Reordered : Root → Root → Prop where
  | record {r s : Record} (h : r.Reordered s) : Root.Reordered (.record r) (.record s)
  | slice {name : String} {a b : Shape} (h : a.Reordered b) :
    Root.Reordered (.slice name a) (.slice name b)

/-! Sorting by a name -/

section

variable (name : Field → String)

theorem Field.pairwise_mergeSort (fields : List Field) :
    (fields.mergeSort fun a b => decide (name a ≤ name b)).Pairwise fun a b => name a ≤ name b := by
  have htrans : ∀ a b c : Field, decide (name a ≤ name b) → decide (name b ≤ name c) →
      decide (name a ≤ name c) := by
    intro a b c hab hbc
    exact decide_eq_true (String.le_trans (of_decide_eq_true hab) (of_decide_eq_true hbc))
  have htotal : ∀ a b : Field, decide (name a ≤ name b) || decide (name b ≤ name a) := by
    intro a b
    simpa using String.le_total (name a) (name b)
  exact (List.pairwise_mergeSort htrans htotal fields).imp of_decide_eq_true

/-- Fields of different names have one order by names. -/
theorem Field.mergeSort_eq_of_perm {fields fields' : List Field} (h : fields.Perm fields')
    (hnames : (fields.map name).Nodup) :
    (fields.mergeSort fun a b => decide (name a ≤ name b)) =
      fields'.mergeSort fun a b => decide (name a ≤ name b) := by
  have hsort := List.mergeSort_perm fields fun a b => decide (name a ≤ name b)
  have hsort' := List.mergeSort_perm fields' fun a b => decide (name a ≤ name b)
  refine List.Perm.eq_of_pairwise ?_ (Field.pairwise_mergeSort name fields)
    (Field.pairwise_mergeSort name fields') (hsort.trans (h.trans hsort'.symm))
  intro a b ha hb hab hba
  have hname := String.le_antisymm hab hba
  exact List.inj_on_of_nodup_map hnames (hsort.subset ha) (h.symm.subset (hsort'.subset hb)) hname

end

/-! Sorting keeps a record up to order. -/

theorem Shape.reordered_sorted_of : ∀ {a : Shape},
    (∀ r, a.record? = some r → r.Reordered r.sorted) → a.Reordered a.sorted
  | .scalar kind, _ => .scalar kind
  | .struct r, h => .struct (h r rfl)
  | .structSlice r, h => .structSlice (h r rfl)
  | .slice element, h => .slice (Shape.reordered_sorted_of (a := element) h)
  | .anySlice, _ => .anySlice
  | .any, _ => .any

theorem Record.reordered_sorted (r : Record) : r.Reordered r.sorted := by
  induction r using Record.induct with
  | hstep name fields hinside =>
    have hfields : ∀ f ∈ fields, f.Reordered (Field.sortedShape f) := by
      intro f hf
      have hshape := Shape.reordered_sorted_of (hinside f hf)
      cases f
      exact .mk hshape
    have hpairs : List.Forall₂ Field.Reordered fields (fields.map Field.sortedShape) := by
      rw [List.forall₂_map_right_iff]
      exact List.forall₂_same.mpr hfields
    exact .mk hpairs (Record.fields_sorted_perm ⟨name, fields⟩).symm

/-! Sorting forgets the order. -/

/-- Sorting makes a record equal to every other that differs from it in the order of fields
alone. -/
def Record.SortsAlike (r : Record) : Prop :=
  ∀ s, r.Reordered s → (∀ inner ∈ r.records, inner.identifiers.Nodup) → r.sorted = s.sorted

theorem Shape.sorted_eq_of : ∀ {a b : Shape}, (∀ r, a.record? = some r → r.SortsAlike) →
    a.Reordered b → (∀ inner ∈ a.records, inner.identifiers.Nodup) → a.sorted = b.sorted
  | _, _, _, .scalar _, _ => rfl
  | _, _, hinside, .struct h, hnodup => congrArg Shape.struct (hinside _ rfl _ h hnodup)
  | _, _, hinside, .structSlice h, hnodup => congrArg Shape.structSlice (hinside _ rfl _ h hnodup)
  | .slice a, _, hinside, .slice h, hnodup =>
    congrArg Shape.slice (Shape.sorted_eq_of (a := a) hinside h hnodup)
  | _, _, _, .anySlice, _ => rfl
  | _, _, _, .any, _ => rfl

theorem Field.map_sortedShape_eq_of {fields others : List Field}
    (hinside : ∀ f ∈ fields, ∀ r, f.child? = some r → r.SortsAlike)
    (h : List.Forall₂ Field.Reordered fields others)
    (hnodup : ∀ f ∈ fields, ∀ inner ∈ f.shape.records, inner.identifiers.Nodup) :
    fields.map Field.sortedShape = others.map Field.sortedShape := by
  induction h with
  | nil => rfl
  | @cons f g fields others hfield _ ih =>
    obtain ⟨hhere, hlater⟩ := List.forall_mem_cons.mp hinside
    obtain ⟨hnodupHere, hnodupLater⟩ := List.forall_mem_cons.mp hnodup
    have hsame : Field.sortedShape f = Field.sortedShape g := by
      cases hfield with
      | mk hshape =>
        have hsorted := Shape.sorted_eq_of hhere hshape hnodupHere
        rw [Field.sortedShape, Field.sortedShape, hsorted]
    rw [List.map_cons, List.map_cons, hsame, ih hlater hnodupLater]

theorem Record.sortsAlike (r : Record) : r.SortsAlike := by
  induction r using Record.induct with
  | hstep name fields hinside =>
    intro s h hnodup
    obtain ⟨hown, hinner⟩ := Record.forall_mem_records.mp hnodup
    cases h with
    | @mk _ _ gs hs hfields hperm =>
      have hsame := Field.map_sortedShape_eq_of hinside hfields hinner
      have hsorted := hperm.map Field.sortedShape
      rw [← hsame] at hsorted
      have hidentifiers : ((fields.map Field.sortedShape).map Field.identifier).Nodup := by
        rw [Field.map_map_sortedShape Field.identifier_sortedShape]
        exact hown
      rw [Record.sorted, Record.sorted, Field.sortedShapes_eq_map, Field.sortedShapes_eq_map,
        Field.sort, Field.sort, Field.mergeSort_eq_of_perm Field.identifier hsorted hidentifiers]

/-! The order of a sorted record -/

/-- The identifiers of the fields ascend strictly, byte by byte. -/
def Record.Ascending (r : Record) : Prop :=
  r.fields.Pairwise fun f g => f.identifier.toUTF8.toList < g.identifier.toUTF8.toList

theorem Record.ascending_sorted {r : Record} (h : r.identifiers.Nodup) : r.sorted.Ascending := by
  have hdistinct : r.sorted.fields.Pairwise fun f g => f.identifier ≠ g.identifier :=
    List.pairwise_map.mp (r.identifiers_sorted_perm.nodup_iff.mpr h)
  have hordered : r.sorted.fields.Pairwise fun f g => f.identifier ≤ g.identifier := by
    cases r
    exact Field.pairwise_mergeSort Field.identifier _
  refine (hordered.and hdistinct).imp fun ⟨hle, hne⟩ => Utf8.toUTF8_lt_toUTF8 ?_
  exact Std.lt_of_le_of_ne hle hne

namespace Root

variable {root : Root}

theorem reordered_sorted (root : Root) : root.Reordered root.sorted := by
  cases root with
  | record r => exact .record r.reordered_sorted
  | slice name shape => exact .slice (Shape.reordered_sorted_of fun r _ => r.reordered_sorted)

theorem sorted_eq_of_reordered (hnodup : ∀ r ∈ root.records, r.identifiers.Nodup) {other : Root}
    (h : root.Reordered other) : root.sorted = other.sorted := by
  cases h with
  | record h => exact congrArg Root.record (Record.sortsAlike _ _ h hnodup)
  | slice h =>
    exact congrArg (Root.slice _) (Shape.sorted_eq_of (fun r _ => r.sortsAlike) h hnodup)

/-- If no record of a root has two fields of one identifier, sorting changes nothing but the order
of fields, at every depth, and leaves identifiers in ascending order there. Roots that differ in the
order of fields alone become equal, so sorting again changes nothing. -/
theorem sorted_canonical (hnodup : ∀ r ∈ root.records, r.identifiers.Nodup) :
    root.Reordered root.sorted ∧ (∀ r ∈ root.sorted.records, r.Ascending) ∧
      (∀ other, root.Reordered other → root.sorted = other.sorted) ∧
      root.sorted.sorted = root.sorted := by
  refine ⟨root.reordered_sorted, ?_, fun other h => sorted_eq_of_reordered hnodup h,
    (sorted_eq_of_reordered hnodup root.reordered_sorted).symm⟩
  intro r hr
  obtain ⟨s, hs, rfl⟩ := List.mem_map.mp (root.records_sorted_perm.mem_iff.mp hr)
  exact Record.ascending_sorted (hnodup s hs)

/-- Records behind two slices and inside a field, with identifiers outside ASCII. -/
theorem sorted_canonical_of_nested :
    let null (key : String) := Field.plain key key (.scalar .null)
    let inner : Record := ⟨"Inner", [null "\uffff", null "𐀀", null "z"]⟩
    let turned : Record := ⟨"Inner", [null "z", null "𐀀", null "\uffff"]⟩
    let holding (r : Record) := Field.plain "b" "B" (.struct r)
    let root : Root := .slice "Root" (.slice (.structSlice ⟨"Item", [holding inner, null "A"]⟩))
    let other : Root := .slice "Root" (.slice (.structSlice ⟨"Item", [null "A", holding turned]⟩))
    (∀ r ∈ root.records, r.identifiers.Nodup) ∧ root.Reordered other ∧
      root.sorted = other.sorted ∧ (∀ r ∈ root.sorted.records, r.Ascending) := by
  intro null inner turned holding root other
  have hnodup : ∀ r ∈ root.records, r.identifiers.Nodup := by decide
  have hnull (key : String) : (null key).Reordered (null key) := .mk (.scalar .null)
  have hinner : inner.Reordered turned :=
    .mk (.cons (hnull _) (.cons (hnull _) (.cons (hnull _) .nil))) (List.reverse_perm _).symm
  have hitem : Record.Reordered ⟨"Item", [holding inner, null "A"]⟩
      ⟨"Item", [null "A", holding turned]⟩ :=
    .mk (.cons (.mk (.struct hinner)) (.cons (hnull "A") .nil)) (.swap ..)
  have hroot : root.Reordered other := .slice (.slice (.structSlice hitem))
  obtain ⟨-, hascending, hequal, -⟩ := sorted_canonical hnodup
  exact ⟨hnodup, hroot, hequal other hroot, hascending⟩

end Root

end Exemplar
