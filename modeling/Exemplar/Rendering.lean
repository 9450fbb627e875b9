import Exemplar.Declaration
import Exemplar.Shape.Sorted

/-!
# From roots to declarations

Every record becomes one struct. The names of the records inside a record are claimed while its
fields are declared; the structs themselves follow after their parent, in the order of the
fields, each before its own children. A root that is an array becomes an alias, followed by the
record of its elements.
-/

namespace Exemplar

/-- The type of the values of a shape; the record in it is declared under the given name. -/
def Shape.fieldType (child : String) : Shape → FieldType
  | .scalar kind =>
    match kind with
    | .null => .json
    | .boolean => .boolean
    | .int64 => .integer
    | .float64 => .float
    | .bigInteger | .bigFloat => .number
    | .string => .string
  | .struct _ => .declared child
  | .structSlice _ => .vector (.declared child)
  | .slice element => .vector (element.fieldType child)
  | .anySlice => .vector .json
  | .any => .json

/-- Claims a name for the record in a shape; a shape without a record gets the empty name. -/
def Shape.claimName (taken : TakenNames) (parent : String) (shape : Shape) :
    String × TakenNames :=
  match shape.record? with
  | some record => claimTypeName taken record.name parent
  | none => ("", taken)

/-- Claims names for the records in fields, one after another. -/
def Field.claimNames (taken : TakenNames) (parent : String) :
    List Field → List String × TakenNames
  | [] => ([], taken)
  | field :: fields =>
    let (name, taken) := field.shape.claimName taken parent
    let (names, taken) := claimNames taken parent fields
    (name :: names, taken)

/-- The declarations of fields whose records have been given names. `used` are the field names
that are taken. -/
def Field.declarations (used : List String) : List Field → List String → List FieldDeclaration
  | field :: fields, child :: children =>
    let name := FieldName.unique used field.identifier
    ⟨field.sourceKey, name, field.shape.fieldType child, field.optional, field.sample⟩ ::
      declarations (name :: used) fields children
  | _, _ => []

mutual

/-- The declarations of a record under a name and of the records inside it. -/
def Record.declare (taken : TakenNames) (name : String) :
    Record → List Declaration × TakenNames
  | ⟨_, fields⟩ =>
    let (children, taken) := Field.claimNames taken name fields
    let (rest, taken) := Field.declareRecords taken children fields
    (.struct name (Field.declarations [] fields children) :: rest, taken)

/-- The declarations of the records in fields under the given names. -/
def Field.declareRecords (taken : TakenNames) (children : List String) :
    List Field → List Declaration × TakenNames
  | [] => ([], taken)
  | field :: fields =>
    let (here, taken) := Field.declareRecord taken (children.headD "") field
    let (rest, taken) := Field.declareRecords taken children.tail fields
    (here ++ rest, taken)

def Field.declareRecord (taken : TakenNames) (child : String) :
    Field → List Declaration × TakenNames
  | ⟨_, _, shape, _, _⟩ => shape.declareRecord taken child

def Shape.declareRecord (taken : TakenNames) (child : String) :
    Shape → List Declaration × TakenNames
  | .struct record | .structSlice record => record.declare taken child
  | .slice element => element.declareRecord taken child
  | .scalar _ | .anySlice | .any => ([], taken)

end

def Root.declare (taken : TakenNames) (root : Root) : List Declaration × TakenNames :=
  let (name, taken) := claimTypeName taken root.name ""
  match root with
  | .record r => r.declare taken name
  | .slice _ shape =>
    let (child, taken) := shape.claimName taken name
    let (rest, taken) := shape.declareRecord taken child
    (.synonym name (shape.fieldType child) :: rest, taken)

def Root.declareAll (taken : TakenNames) : List Root → List Declaration
  | [] => []
  | root :: roots =>
    let (here, taken) := root.declare taken
    here ++ declareAll taken roots

def render (options : RenderOptions) (roots : List Root) : String :=
  let roots := if options.sortFields then roots.map Root.sorted else roots
  Declaration.fileText options (Root.declareAll [] roots)

end Exemplar
