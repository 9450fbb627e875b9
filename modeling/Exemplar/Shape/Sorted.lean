import Exemplar.Shape

/-!
# Fields in alphabetical order

Sorting a record puts its fields into the order of their identifiers, and does the same to every
record inside it. Fields with equal identifiers keep their order.
-/

namespace Exemplar

/-- Fields in the order of their identifiers, by code points. -/
def Field.sort (fields : List Field) : List Field :=
  fields.mergeSort fun a b => decide (a.identifier ≤ b.identifier)

mutual

def Shape.sorted : Shape → Shape
  | .struct record => .struct record.sorted
  | .structSlice record => .structSlice record.sorted
  | .slice element => .slice element.sorted
  | .scalar kind => .scalar kind
  | .anySlice => .anySlice
  | .any => .any

/-- A record with its fields in order, at every depth. -/
def Record.sorted : Record → Record
  | ⟨name, fields⟩ => ⟨name, Field.sort (Field.sortedShapes fields)⟩

/-- Fields in the given order, with sorted shapes. -/
def Field.sortedShapes : List Field → List Field
  | [] => []
  | field :: fields => Field.sortedShape field :: Field.sortedShapes fields

def Field.sortedShape : Field → Field
  | ⟨sourceKey, identifier, shape, optional, sample⟩ =>
    ⟨sourceKey, identifier, shape.sorted, optional, sample⟩

end

def Root.sorted : Root → Root
  | .record r => .record r.sorted
  | .slice name shape => .slice name shape.sorted

end Exemplar
