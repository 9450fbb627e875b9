import Exemplar.Fresh
import Exemplar.Value

/-!
# Shapes and records

What is inferred from examples is a tree of named records. A field of a record has a shape, and
a shape may hold a further record. Nothing is shared between two places of the tree.
-/

namespace Exemplar

mutual

/-- The form that the values of a field have in common. -/
inductive Shape where
  | scalar (kind : ScalarKind)
  /-- Objects that are described by a record. -/
  | struct (record : Record)
  /-- Arrays of such objects. -/
  | structSlice (record : Record)
  /-- Arrays whose elements have one shape. -/
  | slice (element : Shape)
  /-- Arrays of anything. -/
  | anySlice
  /-- Anything. -/
  | any

/-- One field of a record. -/
structure Field where
  /-- The key in the documents. -/
  sourceKey : String
  /-- The name of the field, unique within its record. -/
  identifier : String
  shape : Shape
  /-- Whether some example lacks the field, or has null for it. -/
  optional : Bool
  /-- The first value seen that can serve as an illustration. -/
  sample : Option Value

/-- A record: a name and fields in order. -/
structure Record where
  name : String
  fields : List Field

end

namespace ScalarKind

/-- The least kind that covers both, if there is one: null yields to every kind, and big numbers
cover those of 64 bits. -/
def join? (a b : ScalarKind) : Option ScalarKind :=
  if a = b then some a
  else
    match a, b with
    | null, k | k, null => some k
    | int64, bigInteger | bigInteger, int64 => some bigInteger
    | float64, bigFloat | bigFloat, float64 => some bigFloat
    | _, _ => none

end ScalarKind

namespace Shape

def isSlice : Shape → Bool
  | structSlice _ | slice _ | anySlice => true
  | _ => false

def isNull : Shape → Bool
  | scalar .null => true
  | _ => false

/-- The record that a shape holds, directly or inside slices. -/
def record? : Shape → Option Record
  | struct record | structSlice record => some record
  | slice element => element.record?
  | _ => none

def label : Shape → String
  | scalar kind => kind.label
  | struct record => "struct " ++ record.name
  | structSlice record => "[]struct " ++ record.name
  | slice element => "[]" ++ element.label
  | anySlice => "[]opaque"
  | any => "opaque"

/-- Whether two shapes agree, where records are compared by name alone. -/
def similar : Shape → Shape → Bool
  | scalar a, scalar b => a = b
  | struct a, struct b | structSlice a, structSlice b => a.name = b.name
  | slice a, slice b => a.similar b
  | anySlice, anySlice | any, any => true
  | _, _ => false

end Shape

namespace Field

/-- A field without a sample that is present in every example. -/
def plain (sourceKey identifier : String) (shape : Shape) : Field :=
  ⟨sourceKey, identifier, shape, false, none⟩

/-- The record that a field holds, directly or inside slices. -/
def child? (f : Field) : Option Record := f.shape.record?

/-- Whether two fields are the same field of a record. Whether they are optional, and their
samples, do not matter. -/
def agrees (a b : Field) : Bool :=
  a.identifier = b.identifier && a.sourceKey = b.sourceKey && a.shape.similar b.shape

end Field

namespace Record

def empty (name : String) : Record := ⟨name, []⟩

def field? (r : Record) (sourceKey : String) : Option Field :=
  r.fields.find? (·.sourceKey = sourceKey)

def fieldNamed? (r : Record) (identifier : String) : Option Field :=
  r.fields.find? (·.identifier = identifier)

def children (r : Record) : List Record :=
  r.fields.filterMap Field.child?

def identifiers (r : Record) : List String :=
  r.fields.map Field.identifier

/-- The field as it will stand in the record: its identifier is made unique by a number. -/
def renamed (r : Record) (f : Field) : Field :=
  { f with identifier := Fresh.name r.identifiers f.identifier }

/-- The record with one more field at its end, and whether the identifier of the field had to
change, which it has to where another field has it. -/
def add (r : Record) (f : Field) : Record × Bool :=
  ({ r with fields := r.fields ++ [r.renamed f] }, r.identifiers.contains f.identifier)

/-- Whether two lists of fields have the same length and agree one by one. -/
def fieldsAgree : List Field → List Field → Bool
  | [], [] => true
  | a :: as, b :: bs => a.agrees b && fieldsAgree as bs
  | _, _ => false

/-- Whether two records have the same name and the same fields in the same order. -/
def agrees (a b : Record) : Bool :=
  a.name = b.name && fieldsAgree a.fields b.fields

end Record

/-- Whether two shapes agree, where records must agree too. -/
def Shape.agrees : Shape → Shape → Bool
  | scalar a, scalar b => a = b
  | struct a, struct b | structSlice a, structSlice b => a.agrees b
  | slice a, slice b => a.agrees b
  | anySlice, anySlice | any, any => true
  | _, _ => false

/-- What one document describes: a record, or an array of something else under a name. -/
inductive Root where
  | record (record : Record)
  | slice (name : String) (shape : Shape)

namespace Root

def name : Root → String
  | record r => r.name
  | slice name _ => name

def asRecord? : Root → Option Record
  | record r => some r
  | slice _ _ => none

/-- The record that a root is, or that the elements of its array are described by. -/
def record? : Root → Option Record
  | record r => some r
  | slice _ shape => shape.record?

end Root

end Exemplar
