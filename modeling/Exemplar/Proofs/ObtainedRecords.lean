import Exemplar.Proofs.FieldShapes
import Exemplar.Proofs.Refinement

/-!
# Records that are obtained from examples

A record is obtained from one object, from objects, or by merging two records that are obtained.
However it is obtained, its fields have distinct keys and distinct identifiers, and the slices in it
have elements with a common shape, at every depth.
-/

namespace Exemplar

/-- The record describes examples, or covers records that do. -/
inductive Record.Obtained : Record → Prop where
  | object (initialisms : Initialisms) (name : String) {members : List (String × Value)}
    (h : (Value.object members).keysDistinct) :
    Obtained (ofObject initialisms name members).result
  | objects (initialisms : Initialisms) (name : String)
    {examples : List (List (String × Value))}
    (h : ∀ members ∈ examples, (Value.object members).keysDistinct) :
    Obtained (ofObjects initialisms name (examples.map Value.object)).result
  | merge {a b : Record} (ha : Obtained a) (hb : Obtained b) : Obtained (merge a b).result

/-! Regular shapes -/

namespace Shape

/-- The elements of an array can have the shape in common. -/
def isElement : Shape → Bool
  | scalar _ | structSlice _ => true
  | slice element => element.isElement
  | struct _ | anySlice | any => false

/-- A slice has elements with a common shape. -/
def isRegular : Shape → Bool
  | slice element => element.isElement
  | _ => true

theorem isElement_keyed : ∀ a : Shape, a.keyed.isElement = a.isElement
  | scalar _ | struct _ | structSlice _ | anySlice | any => rfl
  | slice element => isElement_keyed element

theorem isRegular_keyed (a : Shape) : a.keyed.isRegular = a.isRegular := by
  cases a with
  | slice element => exact isElement_keyed element
  | _ => rfl

end Shape

/-- The fields of the record have regular shapes. -/
def Record.IsRegular (r : Record) : Prop :=
  ∀ f ∈ r.fields, f.shape.isRegular

/-- No slice in the shape, or in the records inside it, has elements without a common shape. -/
structure Shape.Regular (a : Shape) : Prop where
  own : a.isRegular
  inner : ∀ r ∈ a.records, r.IsRegular

def Record.Regular (r : Record) : Prop :=
  ∀ f ∈ r.fields, f.shape.Regular

theorem Record.regular_iff {r : Record} : r.Regular ↔ ∀ inner ∈ r.records, inner.IsRegular := by
  rw [Record.forall_mem_records]
  exact ⟨fun h => ⟨fun f hf => (h f hf).own, fun f hf => (h f hf).inner⟩,
    fun h f hf => ⟨h.1 f hf, h.2 f hf⟩⟩

theorem Record.isRegular_keyed {r : Record} : r.keyed.IsRegular ↔ r.IsRegular := by
  simp only [IsRegular, Record.keyed_eq_mk, List.forall_mem_map, Field.keyed_shape,
    Shape.isRegular_keyed]

/-! Examples -/

namespace Summary

variable (initialisms : Initialisms)

theorem isRegular_sliceOf {a : Shape} (hslice : a.isSlice) (h : a.isRegular) :
    (sliceOf a).isRegular := by
  cases a <;> first | rfl | exact h | contradiction

theorem isRegular_slice :
    ∀ (name : String) (elements : List Value), (slice initialisms name elements).isRegular := by
  refine (induct (P := fun _ _ => True) (Q := fun _ _ => True) initialisms ?_ ?_ ?_).2.2
  · exact fun _ _ _ => trivial
  · exact fun _ _ _ _ => trivial
  · intro name elements _ hslice
    rw [slice_eq]
    cases hf : form elements with
    | arrays =>
      refine isRegular_sliceOf (isSlice_joined initialisms name elements) ?_
      rw [joined]
      split
      · rfl
      · rename_i hfull
        exact hslice hf (Bool.eq_false_of_not_eq_true hfull)
    | _ => rfl

theorem isRegular_shape (name : String) (values : List Value) :
    (shape initialisms name values).isRegular := by
  rw [shape_eq]
  split
  case h_4 =>
    rw [joined]
    split
    · rfl
    · exact isRegular_slice initialisms name _
  all_goals rfl

theorem IsRecord.isRegular {r : Record} (h : IsRecord r) : r.IsRegular := by
  obtain ⟨initialisms, name, examples, rfl⟩ := h
  rw [record_eq]
  intro f hf
  obtain ⟨key, -, rfl⟩ := List.mem_map.mp hf
  exact isRegular_shape initialisms _ _

end Summary

theorem Root.Inferred.regular {r : Record} (h : Root.Inferred (.record r)) : r.Regular :=
  Record.regular_iff.mpr fun inner hinner =>
    Record.isRegular_keyed.mp (h.isRecord_keyed inner hinner).isRegular

/-! Merging -/

namespace Shape

theorem isElement_of_similar : ∀ {a b : Shape}, a.similar b → b.isElement → a.isElement
  | scalar _, scalar _, _, _ | structSlice _, structSlice _, _, _ => rfl
  | slice a, slice b, h, hb => isElement_of_similar (a := a) (b := b) h hb
  | struct _, struct _, _, hb | anySlice, anySlice, _, hb | any, any, _, hb => hb

/-- Whether a slice has elements with a common shape can be told without looking into records. -/
theorem lasting_isRegular : Lasting fun _ a => a.isRegular where
  any _ := rfl
  anySlice _ := rfl
  congr {_ a b} h hb := by
    cases a with
    | slice a =>
      cases b with
      | slice b => exact isElement_of_similar h hb
      | _ => contradiction
    | _ => rfl

end Shape

namespace Record

/-- Merging keeps records regular. -/
theorem regular_merge {a b : Record} (ha : a.Regular) (hb : b.Regular) :
    (merge a b).result.Regular :=
  regular_iff.mpr (shaped_merge Shape.lasting_isRegular a b (regular_iff.mp ha) (regular_iff.mp hb))

/-! Obtained records -/

theorem inferred_ofObjects (initialisms : Initialisms) (name : String)
    {examples : List (List (String × Value))}
    (h : ∀ members ∈ examples, (Value.object members).keysDistinct) :
    Root.Inferred (.record (ofObjects initialisms name (examples.map Value.object)).result) := by
  have hkeys : (Value.array (examples.map Value.object)).keysDistinct :=
    (Value.keysDistinct_array _).mpr (List.forall_mem_map.mpr h)
  refine ⟨initialisms, name, 0, .array (examples.map Value.object),
    Root.record <$> ofObjects initialisms name (examples.map Value.object), hkeys, ?_, rfl⟩
  rw [Root.ofDocument, if_pos (all_isObject_map_object examples)]

theorem Obtained.regular {r : Record} (h : r.Obtained) : r.Regular := by
  induction h with
  | object initialisms name hkeys =>
    exact Root.Inferred.regular ⟨initialisms, name, 0, _, _, hkeys, rfl, rfl⟩
  | objects initialisms name hkeys =>
    exact (inferred_ofObjects initialisms name hkeys).regular
  | merge _ _ ha hb => exact regular_merge ha hb

theorem Obtained.fieldsDistinct {r : Record} (h : r.Obtained) : FieldsDistinct r.records := by
  induction h with
  | object initialisms name hkeys => exact fieldsDistinct_ofObject initialisms name hkeys
  | objects initialisms name hkeys =>
    exact (Gathering.forall_records_finish stable_distinct).mpr
      (Gathering.fieldsDistinct_ofObjects (Gathering.fieldsDistinct_start name)
        (List.forall_mem_map.mpr hkeys))
  | merge _ _ ha hb => exact (mergesUp_merge _ _).distinct ha hb

end Record

end Exemplar
