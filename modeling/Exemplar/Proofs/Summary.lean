import Exemplar.Inference
import Exemplar.Proofs.Form
import Exemplar.Proofs.Keyed

/-!
# What examples have in common

A summary describes examples without going through them one after another: it looks at all values
of a key at once. `Summary.record` has one field for each key, `Summary.shape` describes the
values of a key and `Summary.slice` the elements of an array. Identifiers are left empty.
-/

namespace Exemplar

namespace Summary

/-- Whether null stands among the values, and something else too. -/
def mixesNull (values : List Value) : Bool :=
  values.any Value.isNull && !values.all Value.isNull

/-- The values other than null. -/
def concrete (values : List Value) : List Value :=
  values.filter (!·.isNull)

/-- The first value that can illustrate a field. -/
def sample? (values : List Value) : Option Value :=
  values.findSome? Value.sample?

/-- The shape of arrays whose elements have the given shape; elements that are arrays of anything
say nothing. -/
def sliceOf : Shape → Shape
  | .anySlice => .anySlice
  | element => .slice element

private theorem length_pos {values : List Value} {f : Form} (h : form values = f)
    (hf : f ≠ .nothing) : 0 < values.length :=
  List.length_pos_iff.mpr fun he => hf (h.symm.trans (form_eq_nothing_iff.mpr he))

variable (initialisms : Initialisms)

mutual

/-- The record of examples: a field for each key, in the order in which the keys are first seen. A
field is optional if an example lacks it, or if some of its values are null and others are not. -/
def record (name : String) (examples : List (List (String × Value))) : Record :=
  ⟨name, (Examples.keys examples).map fun key =>
    { sourceKey := key
      identifier := ""
      shape := shape (Identifier.ofKey initialisms key) (Examples.observed key examples)
      optional := Examples.lacks key examples || mixesNull (Examples.observed key examples)
      sample := sample? (Examples.observed key examples) }⟩
termination_by 2 * Examples.weight examples + 1
decreasing_by
  have := Examples.totalWeight_observed_le key examples
  omega

/-- The shape of the values of a key. Null counts only where there is nothing else. Objects have
one record, arrays the shape of one array that holds all their elements, unless one is empty;
values that differ in form have no shape of their own. -/
def shape (name : String) (values : List Value) : Shape :=
  match _h : form (concrete values) with
  | .nothing => .scalar .null
  | .scalars kind => .scalar kind
  | .objects => .struct (record name ((concrete values).map Value.members))
  | .arrays =>
    if (concrete values).any (·.elements.isEmpty) then .anySlice
    else slice name ((concrete values).flatMap Value.elements)
  | .mixed => .any
termination_by 2 * Value.totalWeight values
decreasing_by
  all_goals
    have hpos := length_pos _h (by simp)
    have hle : Value.totalWeight (concrete values) ≤ _ :=
      Value.totalWeight_filter_le (!·.isNull) values
    have hmembers := Examples.weight_map_members_le (concrete values)
    have helements := Value.totalWeight_flatMap_elements_le (concrete values)
    omega

/-- The shape of an array with the given elements. Objects have one record, scalars their largest
kind, arrays the shape of one array that holds all their elements, unless one is empty. Elements
that differ in form, or of which there are none, make a slice of anything. -/
def slice (name : String) (elements : List Value) : Shape :=
  match _h : form elements with
  | .nothing => .anySlice
  | .scalars kind => .slice (.scalar kind)
  | .objects => .structSlice (record name (elements.map Value.members))
  | .arrays =>
    if elements.any (·.elements.isEmpty) then .anySlice
    else sliceOf (slice name (elements.flatMap Value.elements))
  | .mixed => .anySlice
termination_by 2 * Value.totalWeight elements
decreasing_by
  all_goals
    have hpos := length_pos _h (by simp)
    have hmembers := Examples.weight_map_members_le elements
    have helements := Value.totalWeight_flatMap_elements_le elements
    omega

end

/-- The shape of one array that holds all elements of some arrays, unless one is empty. -/
def joined (name : String) (arrays : List Value) : Shape :=
  if arrays.any (·.elements.isEmpty) then .anySlice
  else slice initialisms name (arrays.flatMap Value.elements)

/-- The field of one key. -/
def field (examples : List (List (String × Value))) (key : String) : Field where
  sourceKey := key
  identifier := ""
  shape := shape initialisms (Identifier.ofKey initialisms key) (Examples.observed key examples)
  optional := Examples.lacks key examples || mixesNull (Examples.observed key examples)
  sample := sample? (Examples.observed key examples)

theorem record_eq (name : String) (examples : List (List (String × Value))) :
    record initialisms name examples =
      ⟨name, (Examples.keys examples).map (field initialisms examples)⟩ := by
  rw [record]
  rfl

theorem shape_eq (name : String) (values : List Value) :
    shape initialisms name values =
      match form (concrete values) with
      | .nothing => .scalar .null
      | .scalars kind => .scalar kind
      | .objects => .struct (record initialisms name ((concrete values).map Value.members))
      | .arrays => joined initialisms name (concrete values)
      | .mixed => .any := by
  rw [shape]
  split <;> simp_all [joined]

theorem slice_eq (name : String) (elements : List Value) :
    slice initialisms name elements =
      match form elements with
      | .nothing => .anySlice
      | .scalars kind => .slice (.scalar kind)
      | .objects => .structSlice (record initialisms name (elements.map Value.members))
      | .arrays => sliceOf (joined initialisms name elements)
      | .mixed => .anySlice := by
  rw [slice]
  split
  case h_4 h =>
    rw [h]
    dsimp only
    rw [joined]
    split <;> rfl
  all_goals simp_all

/-- A statement about records, one about shapes and one about slices hold together, if each
follows from those one level further down. -/
theorem induct {P : String → List (List (String × Value)) → Prop}
    {Q R : String → List Value → Prop}
    (hrecord : ∀ name examples,
      (∀ key, Q (Identifier.ofKey initialisms key) (Examples.observed key examples)) →
      P name examples)
    (hshape : ∀ name values,
      (form (concrete values) = .objects → P name ((concrete values).map Value.members)) →
      (form (concrete values) = .arrays →
        (concrete values).any (·.elements.isEmpty) = false →
        R name ((concrete values).flatMap Value.elements)) →
      Q name values)
    (hslice : ∀ name elements,
      (form elements = .objects → P name (elements.map Value.members)) →
      (form elements = .arrays → elements.any (·.elements.isEmpty) = false →
        R name (elements.flatMap Value.elements)) →
      R name elements) :
    (∀ name examples, P name examples) ∧ (∀ name values, Q name values) ∧
      ∀ name elements, R name elements := by
  apply record.mutual_induct initialisms P Q R hrecord
  -- the cases of a shape
  · intro name values h
    exact hshape name values (by simp [h]) (by simp [h])
  · intro name values kind h
    exact hshape name values (by simp [h]) (by simp [h])
  · intro name values h ih
    exact hshape name values (fun _ => ih) (by simp [h])
  · intro name values h hempty
    exact hshape name values (by simp [h]) fun _ hfull => by simp [hempty] at hfull
  · intro name values h _ ih
    exact hshape name values (by simp [h]) fun _ _ => ih
  · intro name values h
    exact hshape name values (by simp [h]) (by simp [h])
  -- the cases of a slice
  · intro name elements h
    exact hslice name elements (by simp [h]) (by simp [h])
  · intro name elements kind h
    exact hslice name elements (by simp [h]) (by simp [h])
  · intro name elements h ih
    exact hslice name elements (fun _ => ih) (by simp [h])
  · intro name elements h hempty
    exact hslice name elements (by simp [h]) fun _ hfull => by simp [hempty] at hfull
  · intro name elements h _ ih
    exact hslice name elements (by simp [h]) fun _ _ => ih
  · intro name elements h
    exact hslice name elements (by simp [h]) (by simp [h])

theorem isSlice_sliceOf (a : Shape) : (sliceOf a).isSlice := by
  cases a <;> rfl

theorem isSlice_slice (name : String) (elements : List Value) :
    (slice initialisms name elements).isSlice := by
  rw [slice_eq]
  split <;> first | rfl | exact isSlice_sliceOf _

theorem isSlice_joined (name : String) (arrays : List Value) :
    (joined initialisms name arrays).isSlice := by
  rw [joined]
  split
  · rfl
  · exact isSlice_slice initialisms name _

/-- Arrays with the elements of one array are described like that array. -/
theorem joined_singleton (name : String) (elements : List Value) :
    joined initialisms name [.array elements] = slice initialisms name elements := by
  rw [joined, List.any_cons, List.any_nil, Bool.or_false, List.flatMap_cons, List.flatMap_nil,
    List.append_nil]
  cases elements with
  | nil => exact (slice_eq initialisms name []).symm
  | cons v elements => rfl

theorem concrete_append (vs ws : List Value) :
    concrete (vs ++ ws) = concrete vs ++ concrete ws := List.filter_append ..

theorem concrete_eq_nil_iff {values : List Value} :
    concrete values = [] ↔ values.all Value.isNull := by
  rw [concrete, List.filter_eq_nil_iff, List.all_eq_true]
  simp

theorem mem_concrete {values : List Value} {v : Value} :
    v ∈ concrete values ↔ v ∈ values ∧ v.isNull = false := by
  rw [concrete, List.mem_filter, Bool.not_eq_true']

/-- No value other than null has the kind of null. -/
theorem ne_null_of_form_concrete {values : List Value} {kind : ScalarKind}
    (h : form (concrete values) = .scalars kind) : kind ≠ .null := by
  obtain ⟨⟨v, hv, hk⟩, -⟩ := kind?_eq_some_iff.mp (form_eq_scalars_iff.mp h).2
  have hnull := (mem_concrete.mp hv).2
  rintro rfl
  rw [(Value.scalarKind?_eq_null_iff v).mp hk] at hnull
  contradiction

/-- The shape of values is null if they all are. -/
theorem isNull_shape (name : String) (values : List Value) :
    (shape initialisms name values).isNull = values.all Value.isNull := by
  have hsome : ∀ {f : Form}, form (concrete values) = f → f ≠ .nothing →
      values.all Value.isNull = false := by
    intro f hf hne
    refine Bool.eq_false_iff.mpr fun hall => hne ?_
    rw [← hf, concrete_eq_nil_iff.mpr hall]
    rfl
  rw [shape_eq]
  cases hf : form (concrete values) with
  | nothing => exact (concrete_eq_nil_iff.mp (form_eq_nothing_iff.mp hf)).symm
  | scalars kind =>
    rw [hsome hf (by simp)]
    have hne := ne_null_of_form_concrete hf
    cases kind <;> first | rfl | contradiction
  | objects => exact (hsome hf (by simp)).symm
  | arrays =>
    rw [hsome hf (by simp)]
    have hslice := isSlice_joined initialisms name (concrete values)
    cases hj : joined initialisms name (concrete values) <;> simp_all [Shape.isNull, Shape.isSlice]
  | mixed => exact (hsome hf (by simp)).symm

end Summary

end Exemplar
