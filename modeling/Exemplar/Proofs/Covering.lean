import Exemplar.Proofs.Gathering
import Exemplar.Proofs.Summary

/-!
# Joining shapes, form by form

The shape of values tells their form. Joining two shapes follows the join of the forms: shapes of
forms that do not fit together cover each other by `any`, and in arrays by `anySlice`. What is left
to show elsewhere are the joins of shapes of one form.
-/

namespace Exemplar

variable (m : RecordMerge)

namespace Shape

theorem covering_any_left (b : Shape) : covering m any b = any := by
  simp [covering, join?]

theorem covering_any_right (a : Shape) : covering m a any = any := by
  cases a <;> simp [covering, join?]

theorem covering_null_left (b : Shape) : covering m (scalar .null) b = b := by
  cases b with
  | scalar kind => cases kind <;> rfl
  | _ => rfl

theorem covering_null_right (a : Shape) : covering m a (scalar .null) = a := by
  cases a with
  | scalar kind => cases kind <;> rfl
  | _ => rfl

theorem covering_anySlice_left {b : Shape} (h : b.isSlice) : covering m anySlice b = anySlice := by
  cases b <;> first | rfl | contradiction

theorem covering_anySlice_right {a : Shape} (h : a.isSlice) :
    covering m a anySlice = anySlice := by
  cases a <;> first | rfl | contradiction

theorem covering_struct (a b : Record) :
    covering m (struct a) (struct b) = struct (m a b).result := rfl

theorem covering_structSlice (a b : Record) :
    covering m (structSlice a) (structSlice b) = structSlice (m a b).result := rfl

/-- Scalars other than null join to the larger kind. -/
theorem covering_scalar {j k : ScalarKind} (hj : j ≠ .null) (hk : k ≠ .null) :
    covering m (scalar j) (scalar k) =
      match ScalarKind.larger? j k with
      | some kind => scalar kind
      | none => any := by
  cases j <;> cases k <;> first | rfl | contradiction

/-- In arrays null is a kind like any other. -/
theorem covering_slice_scalar (j k : ScalarKind) :
    covering m (slice (scalar j)) (slice (scalar k)) =
      match ScalarKind.larger? j k with
      | some kind => slice (scalar kind)
      | none => anySlice := by
  cases j <;> cases k <;> rfl

/-- Arrays of arrays are joined like the arrays in them. -/
theorem covering_sliceOf {a b : Shape} (ha : a.isSlice) (hb : b.isSlice) :
    covering m (Summary.sliceOf a) (Summary.sliceOf b) = Summary.sliceOf (covering m a b) := by
  cases a with
  | anySlice =>
    rw [covering_anySlice_left m hb]
    exact covering_anySlice_left m (Summary.isSlice_sliceOf b)
  | slice a =>
    cases b with
    | slice b =>
      simp only [covering, join?, elementJoin?, Summary.sliceOf]
      cases elementJoin? m a b <;> rfl
    | structSlice b => rfl
    | anySlice => rfl
    | _ => contradiction
  | structSlice a => cases b <;> first | rfl | contradiction
  | _ => contradiction

end Shape

namespace Summary

/-- A shape can be that of values of a form. -/
def Form.Fits : Form → Shape → Prop
  | nothing, a => a = .scalar .null
  | scalars kind, a => a = .scalar kind ∧ kind ≠ .null
  | objects, a => ∃ r, a = .struct r
  | arrays, a => a.isSlice
  | mixed, a => a = .any

/-- A shape can be that of an array whose elements have a form. -/
def Form.FitsElements : Form → Shape → Prop
  | nothing, a | mixed, a => a = .anySlice
  | scalars kind, a => a = .slice (.scalar kind)
  | objects, a => ∃ r, a = .structSlice r
  | arrays, a => ∃ t : Shape, a = sliceOf t ∧ t.isSlice

variable {m}

theorem covering_of_join_eq_mixed {f g : Form} {a b : Shape} (ha : f.Fits a) (hb : g.Fits b)
    (h : f.join g = .mixed) : a.covering m b = .any := by
  by_cases hf : f = .mixed
  · subst hf
    rw [show a = .any from ha, Shape.covering_any_left]
  by_cases hg : g = .mixed
  · subst hg
    rw [show b = .any from hb, Shape.covering_any_right]
  cases f with
  | nothing => exact absurd h hg
  | mixed => contradiction
  | scalars j =>
    obtain ⟨rfl, hj⟩ := ha
    cases g with
    | nothing => contradiction
    | mixed => contradiction
    | scalars k =>
      obtain ⟨rfl, hk⟩ := hb
      rw [Shape.covering_scalar m hj hk]
      rw [Form.join] at h
      cases hlarger : ScalarKind.larger? j k with
      | some kind =>
        rw [hlarger] at h
        contradiction
      | none => rfl
    | objects =>
      obtain ⟨r, rfl⟩ := hb
      cases j <;> first | rfl | contradiction
    | arrays =>
      rw [Form.Fits] at hb
      cases b <;> cases j <;> first | rfl | contradiction
  | objects =>
    obtain ⟨r, rfl⟩ := ha
    cases g with
    | scalars k =>
      obtain ⟨rfl, hk⟩ := hb
      cases k <;> first | rfl | contradiction
    | arrays =>
      rw [Form.Fits] at hb
      cases b <;> first | rfl | contradiction
    | _ => contradiction
  | arrays =>
    rw [Form.Fits] at ha
    cases g with
    | scalars k =>
      obtain ⟨rfl, hk⟩ := hb
      cases a <;> cases k <;> first | rfl | contradiction
    | objects =>
      obtain ⟨r, rfl⟩ := hb
      cases a <;> first | rfl | contradiction
    | _ => contradiction

theorem Form.FitsElements.isSlice {f : Form} {a : Shape} (h : f.FitsElements a) : a.isSlice := by
  cases f with
  | nothing | mixed => rw [show a = .anySlice from h]; rfl
  | scalars kind => rw [show a = .slice (.scalar kind) from h]; rfl
  | objects =>
    obtain ⟨r, rfl⟩ := h
    rfl
  | arrays =>
    obtain ⟨t, rfl, -⟩ := h
    exact isSlice_sliceOf t

theorem covering_elements_of_join_eq_mixed {f g : Form} {a b : Shape} (ha : f.FitsElements a)
    (hb : g.FitsElements b) (h : f.join g = .mixed) : a.covering m b = .anySlice := by
  by_cases hf : f = .mixed
  · subst hf
    rw [show a = .anySlice from ha, Shape.covering_anySlice_left m hb.isSlice]
  by_cases hg : g = .mixed
  · subst hg
    rw [show b = .anySlice from hb, Shape.covering_anySlice_right m ha.isSlice]
  cases f with
  | nothing => exact absurd h hg
  | mixed => contradiction
  | scalars j =>
    rw [show a = .slice (.scalar j) from ha]
    cases g with
    | nothing => contradiction
    | mixed => contradiction
    | scalars k =>
      rw [show b = .slice (.scalar k) from hb, Shape.covering_slice_scalar]
      rw [Form.join] at h
      cases hlarger : ScalarKind.larger? j k with
      | some kind =>
        rw [hlarger] at h
        contradiction
      | none => rfl
    | objects =>
      obtain ⟨r, rfl⟩ := hb
      rfl
    | arrays =>
      obtain ⟨t, rfl, ht⟩ := hb
      cases t <;> first | rfl | contradiction
  | objects =>
    obtain ⟨r, rfl⟩ := ha
    cases g with
    | scalars k =>
      rw [show b = .slice (.scalar k) from hb]
      rfl
    | arrays =>
      obtain ⟨t, rfl, -⟩ := hb
      cases t <;> rfl
    | _ => contradiction
  | arrays =>
    obtain ⟨t, rfl, ht⟩ := ha
    cases g with
    | scalars k =>
      rw [show b = .slice (.scalar k) from hb]
      cases t <;> first | rfl | contradiction
    | objects =>
      obtain ⟨r, rfl⟩ := hb
      cases t <;> rfl
    | _ => contradiction

end Summary

end Exemplar
