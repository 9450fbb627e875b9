import Exemplar.Shape

/-!
# Records up to identifiers

The identifiers of a record depend on the order in which its fields were met. The keyed form of a
record forgets them, at every depth, and keeps all else: names, keys and their order, shapes,
optionality and samples. Two records with equal keyed forms describe the same data.
-/

namespace Exemplar

mutual

/-- A shape without the identifiers of the fields inside it. -/
def Shape.keyed : Shape → Shape
  | .scalar kind => .scalar kind
  | .struct record => .struct record.keyed
  | .structSlice record => .structSlice record.keyed
  | .slice element => .slice element.keyed
  | .anySlice => .anySlice
  | .any => .any

/-- A record without identifiers, at every depth. -/
def Record.keyed : Record → Record
  | ⟨name, fields⟩ => ⟨name, Field.allKeyed fields⟩

/-- Fields without identifiers. -/
def Field.allKeyed : List Field → List Field
  | [] => []
  | field :: fields => field.keyed :: Field.allKeyed fields

/-- A field without its identifier and those inside its shape. -/
def Field.keyed : Field → Field
  | ⟨sourceKey, _, shape, optional, sample⟩ => ⟨sourceKey, "", shape.keyed, optional, sample⟩

end

theorem Field.allKeyed_eq_map (fields : List Field) :
    Field.allKeyed fields = fields.map Field.keyed := by
  induction fields with
  | nil => rfl
  | cons f fields ih => rw [Field.allKeyed, ih, List.map_cons]

@[simp] theorem Record.keyed_name (r : Record) : r.keyed.name = r.name := by
  cases r; rfl

theorem Record.keyed_eq_mk (r : Record) : r.keyed = ⟨r.name, r.fields.map Field.keyed⟩ := by
  cases r with
  | mk name fields => rw [Record.keyed, Field.allKeyed_eq_map]

theorem Field.keyed_eq_mk (f : Field) :
    f.keyed = ⟨f.sourceKey, "", f.shape.keyed, f.optional, f.sample⟩ := by
  cases f; rfl

@[simp] theorem Field.keyed_sourceKey (f : Field) : f.keyed.sourceKey = f.sourceKey := by
  cases f; rfl

@[simp] theorem Field.keyed_shape (f : Field) : f.keyed.shape = f.shape.keyed := by
  cases f; rfl

@[simp] theorem Field.keyed_optional (f : Field) : f.keyed.optional = f.optional := by
  cases f; rfl

@[simp] theorem Shape.isSlice_keyed (a : Shape) : a.keyed.isSlice = a.isSlice := by
  cases a <;> rfl

@[simp] theorem Shape.isNull_keyed (a : Shape) : a.keyed.isNull = a.isNull := by
  cases a with
  | scalar kind => rfl
  | _ => rfl

theorem Shape.keyed_eq_scalar {a : Shape} {kind : ScalarKind} (h : a.keyed = .scalar kind) :
    a = .scalar kind := by
  cases a <;> simp_all [Shape.keyed]

theorem Shape.keyed_eq_struct {a : Shape} {r : Record} (h : a.keyed = .struct r) :
    ∃ s, a = .struct s ∧ s.keyed = r := by
  cases a <;> simp_all [Shape.keyed]

theorem Shape.keyed_eq_structSlice {a : Shape} {r : Record} (h : a.keyed = .structSlice r) :
    ∃ s, a = .structSlice s ∧ s.keyed = r := by
  cases a <;> simp_all [Shape.keyed]

theorem Shape.keyed_eq_slice {a t : Shape} (h : a.keyed = .slice t) :
    ∃ s, a = .slice s ∧ s.keyed = t := by
  cases a <;> simp_all [Shape.keyed]

theorem Shape.keyed_eq_anySlice {a : Shape} (h : a.keyed = .anySlice) : a = .anySlice := by
  cases a <;> simp_all [Shape.keyed]

theorem Shape.keyed_eq_any {a : Shape} (h : a.keyed = .any) : a = .any := by
  cases a <;> simp_all [Shape.keyed]

mutual

theorem Shape.keyed_keyed : ∀ a : Shape, a.keyed.keyed = a.keyed
  | .scalar _ | .anySlice | .any => rfl
  | .struct r => by rw [Shape.keyed, Shape.keyed, Record.keyed_keyed r]
  | .structSlice r => by rw [Shape.keyed, Shape.keyed, Record.keyed_keyed r]
  | .slice element => by rw [Shape.keyed, Shape.keyed, Shape.keyed_keyed element]

theorem Record.keyed_keyed : ∀ r : Record, r.keyed.keyed = r.keyed
  | ⟨name, fields⟩ => by rw [Record.keyed, Record.keyed, Field.allKeyed_keyed fields]

theorem Field.allKeyed_keyed :
    ∀ fields : List Field, Field.allKeyed (Field.allKeyed fields) = Field.allKeyed fields
  | [] => rfl
  | f :: fields => by
    rw [Field.allKeyed, Field.allKeyed, Field.keyed_keyed f, Field.allKeyed_keyed fields]

theorem Field.keyed_keyed : ∀ f : Field, f.keyed.keyed = f.keyed
  | ⟨_, _, shape, _, _⟩ => by rw [Field.keyed, Field.keyed, Shape.keyed_keyed shape]

end

end Exemplar
