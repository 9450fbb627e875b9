import Exemplar.Identifier
import Exemplar.Reader
import Exemplar.Shape.Merge

/-!
# Inference

A value is described by walking it once: objects become records, arrays of objects one record
that covers all elements, other arrays the shape that all elements have in common. A document
must be an object or an array; the records inside it are named after the keys that hold them.
-/

namespace Exemplar

/-- Whether a value can illustrate a field: it is a scalar other than null, or an array of
scalars that is not empty. -/
def Value.sample? : Value → Option Value
  | .null | .object _ => none
  | .array elements =>
    if elements.isEmpty || !elements.all Value.isScalar then none else some (.array elements)
  | value => some value

/-- Reports a number that needs more than 64 bits. -/
def reportPromotion (key : String) (kind : ScalarKind) : Reported Unit :=
  match kind with
  | .bigInteger | .bigFloat => Reported.report (.numericPromotion key kind)
  | _ => pure ()

/-- The shape of an array whose elements have a common shape, or differ (`none`). An inner array
without a shape of its own has already been reported. -/
def Shape.ofJoinedElements (key : String) : Option Shape → Reported Shape
  | some .anySlice => pure .anySlice
  | some (.scalar kind) => do
    reportPromotion key kind
    return .slice (.scalar kind)
  | some shape => pure (.slice shape)
  | none => do
    Reported.report (.heterogeneousArray key)
    return .anySlice

mutual

/-- The shape of the value of a key. The record in it, if any, takes the given name. -/
def Shape.ofValue (initialisms : Initialisms) (key identifier : String) :
    Value → Reported Shape
  | .object members =>
    .struct <$> Record.addMembers initialisms (Record.empty identifier) members
  | .array elements => Shape.ofElements initialisms key identifier elements
  | value =>
    match value.scalarKind? with
    | some kind => do
      reportPromotion key kind
      return .scalar kind
    | none => pure .any

def Shape.ofElements (initialisms : Initialisms) (key identifier : String) :
    List Value → Reported Shape
  | [] => do
    Reported.report (.emptyArray key)
    return .anySlice
  | first :: rest =>
    if first.isObject && rest.all Value.isObject then do
      let g ← Gathering.ofObject initialisms (Gathering.start identifier) first
      let g ← Gathering.ofObjects initialisms g rest
      return .structSlice g.finish
    else do
      let described ← Shape.ofElement? initialisms key identifier first
      match described with
      | some shape =>
        let joined ← Shape.joinElements initialisms key identifier shape rest
        Shape.ofJoinedElements key joined
      | none => Shape.ofJoinedElements key none

/-- The shape of an element of an array that holds not only objects; objects have none there. -/
def Shape.ofElement? (initialisms : Initialisms) (key identifier : String) :
    Value → Reported (Option Shape)
  | .object _ => pure none
  | .array elements => some <$> Shape.ofElements initialisms key identifier elements
  | value => pure (value.scalarKind?.map .scalar)

/-- The common shape of elements after those that have the shape `shape`. Nothing after the first
element that does not fit is looked at. -/
def Shape.joinElements (initialisms : Initialisms) (key identifier : String) (shape : Shape) :
    List Value → Reported (Option Shape)
  | [] => pure (some shape)
  | value :: rest => do
    let described ← Shape.ofElement? initialisms key identifier value
    match described with
    | none => pure none
    | some other =>
      match shape.elementJoin? Record.merge other with
      | none => pure none
      | some joined => do
        let shape ← joined
        Shape.joinElements initialisms key identifier shape rest

/-- Takes in one object as an example; other values are no examples. -/
def Gathering.ofObject (initialisms : Initialisms) (g : Gathering) : Value → Reported Gathering
  | .object members => do
    let sample ← Record.addMembers initialisms (Record.empty g.record.name) members
    g.absorb Record.merge sample
  | _ => pure g

/-- Takes in objects as examples, one after another. -/
def Gathering.ofObjects (initialisms : Initialisms) (g : Gathering) :
    List Value → Reported Gathering
  | [] => pure g
  | value :: rest => do
    let g ← Gathering.ofObject initialisms g value
    Gathering.ofObjects initialisms g rest

/-- A record with one more field for each member of an object. -/
def Record.addMembers (initialisms : Initialisms) (record : Record) :
    List (String × Value) → Reported Record
  | [] => pure record
  | (key, value) :: rest => do
    let identifier := Identifier.ofKey initialisms key
    let shape ← Shape.ofValue initialisms key identifier value
    let record ← record.addReporting ⟨key, identifier, shape, false, value.sample?⟩
    Record.addMembers initialisms record rest

end

def Record.ofObject (initialisms : Initialisms) (name : String)
    (members : List (String × Value)) : Reported Record :=
  Record.addMembers initialisms (Record.empty name) members

/-- One record that covers every example; values other than objects are no examples. -/
def Record.ofObjects (initialisms : Initialisms) (name : String) (values : List Value) :
    Reported Record :=
  Gathering.finish <$> Gathering.ofObjects initialisms (Gathering.start name) values

/-- Why documents cannot be described. -/
inductive InferenceError where
  | unreadable (error : ReadError)
  /-- The document with the given index is a scalar of the given type. -/
  | scalarDocument (index : Nat) (found : String)
  deriving DecidableEq

def InferenceError.message : InferenceError → String
  | unreadable error => error.message
  | scalarDocument index found =>
    s!"document {index}: expecting an object or an array of objects, found {found}"

/-- What one document describes. Objects describe themselves, an array of objects the record that
covers them, any other array an array of its elements, whose record is named after the root. -/
def Root.ofDocument (initialisms : Initialisms) (name : String) (index : Nat) :
    Value → Except InferenceError (Reported Root)
  | .object members => .ok (.record <$> Record.ofObject initialisms name members)
  | .array elements =>
    if elements.all Value.isObject then
      .ok (.record <$> Record.ofObjects initialisms name elements)
    else .ok (.slice name <$> Shape.ofElements initialisms name (name ++ "Item") elements)
  | value => .error (.scalarDocument index value.typeName)

/-- The name of the document with the given index among `count` documents. -/
def Root.documentName (name : String) (count index : Nat) : String :=
  if count = 1 then name else name ++ toString (index + 1)

/-- The first document from `index` on that cannot be described. -/
def firstScalar? (index : Nat) : List Value → Option InferenceError
  | [] => none
  | value :: rest =>
    if value.isScalar then some (.scalarDocument index value.typeName)
    else firstScalar? (index + 1) rest

/-- The roots of the documents from `index` on, of `count` documents. Documents that cannot be
described are left out. -/
def Root.ofDocumentsFrom (initialisms : Initialisms) (name : String) (count index : Nat) :
    List Value → Reported (List Root)
  | [] => pure []
  | value :: rest =>
    match Root.ofDocument initialisms (documentName name count index) index value with
    | .ok described => do
      let root ← described
      let roots ← ofDocumentsFrom initialisms name count (index + 1) rest
      return root :: roots
    | .error _ => ofDocumentsFrom initialisms name count (index + 1) rest

/-- One root for each document. Every document is checked before any is described. -/
def Root.ofDocuments (initialisms : Initialisms) (name : String) (documents : List Value) :
    Except InferenceError (Reported (List Root)) :=
  match firstScalar? 0 documents with
  | some error => .error error
  | none => .ok (ofDocumentsFrom initialisms name documents.length 0 documents)

/-- Reads the documents of an input and describes each of them. -/
def infer (initialisms : Initialisms) (name : String) (bytes : List UInt8) (ending : Ending)
    (limit : Nat) : Reported (Except InferenceError (List Root)) := do
  let documents ← readDocuments bytes ending limit
  match documents with
  | .error error => return .error (.unreadable error)
  | .ok documents =>
    match Root.ofDocuments initialisms name documents with
    | .error error => return .error error
    | .ok described => .ok <$> described

/-- How deep documents may be nested unless something else is asked for. -/
def defaultLimit : Nat := 128

end Exemplar
