import Exemplar.Event
import Exemplar.Shape

/-!
# Merging examples of one record

Examples of a record are merged field by field; fields are matched by their keys. A field that
some example lacks becomes optional, and so does one that is null in some examples only. Numbers
join upwards, records are merged in turn, and shapes that do not fit together become anything.

Merging a record merges the records inside it, so each step below takes the merge of inner
records as an argument; `Record.merge` ties the knot along the nesting depth.
-/

namespace Exemplar

mutual

def Shape.depth : Shape → Nat
  | .struct record | .structSlice record => record.depth
  | .slice element => element.depth
  | _ => 0

/-- How many records are nested in a record, itself included. -/
def Record.depth : Record → Nat
  | ⟨_, fields⟩ => Field.maxDepth fields + 1

def Field.maxDepth : List Field → Nat
  | [] => 0
  | field :: fields => max field.depth (Field.maxDepth fields)

def Field.depth : Field → Nat
  | ⟨_, _, shape, _, _⟩ => shape.depth

end

abbrev RecordMerge := Record → Record → Reported Record

namespace Shape

/-- The shape that covers two elements of one array, if there is one. Null is a kind like any
other here, and there is no shape for elements that differ. -/
def elementJoin? (merge : RecordMerge) : Shape → Shape → Option (Reported Shape)
  | scalar a, scalar b =>
    if a = b then some (pure (scalar a))
    else if a = .null ∨ b = .null then none
    else (a.join? b).map fun kind => pure (scalar kind)
  | slice a, slice b => (elementJoin? merge a b).map (slice <$> ·)
  | structSlice a, structSlice b => some (structSlice <$> merge a b)
  | _, _ => none

/-- The least shape that covers the values of two examples, if there is one. Null yields to every
shape, `any` absorbs every shape and `anySlice` every slice. -/
def join? (merge : RecordMerge) : Shape → Shape → Option (Reported Shape)
  | any, _ | _, any => some (pure any)
  | scalar a, scalar b => (a.join? b).map fun kind => pure (scalar kind)
  | scalar .null, shape | shape, scalar .null => some (pure shape)
  | struct a, struct b => some (struct <$> merge a b)
  | structSlice a, structSlice b => some (structSlice <$> merge a b)
  | slice a, slice b => (elementJoin? merge a b).map (slice <$> ·)
  | anySlice, shape | shape, anySlice => if shape.isSlice then some (pure anySlice) else none
  | _, _ => none

end Shape

/-- A field that covers the same field of two examples. Shapes that do not fit together are
reported; two slices then become a slice of anything. -/
def Field.merge (merge : RecordMerge) (record : String) (existing incoming : Field) :
    Reported Field := do
  let shape ←
    match existing.shape.join? merge incoming.shape with
    | some joined => joined
    | none =>
      if existing.shape.isSlice && incoming.shape.isSlice then do
        Reported.report (.heterogeneousArray existing.sourceKey)
        pure Shape.anySlice
      else do
        Reported.report (.typeConflict record existing.sourceKey existing.shape.label
          incoming.shape.label)
        pure Shape.any
  return { existing with
    shape := shape
    optional := existing.optional || incoming.optional ||
      existing.shape.isNull != incoming.shape.isNull
    sample := existing.sample.or incoming.sample }

/-- The record with one more field at its end; an identifier that had to change is reported. -/
def Record.addReporting (r : Record) (f : Field) : Reported Record := do
  let (record, changed) := r.add f
  if changed then
    Reported.report (.identifierCollision r.name f.sourceKey (r.renamed f).identifier)
  return record

/-- A record in the making: its fields so far, each with the number of times it was seen, and the
number of examples taken in. -/
structure Gathering where
  record : Record
  seen : List Nat
  examples : Nat

namespace Gathering

def start (name : String) : Gathering := ⟨Record.empty name, [], 0⟩

/-- The fields with the first one of the incoming field's key merged with it; `none` if no field
has that key. -/
def mergeInto? (merge : RecordMerge) (record : String) (incoming : Field) :
    List Field → Option (Reported (List Field))
  | [] => none
  | f :: fields =>
    if f.sourceKey = incoming.sourceKey then
      some ((· :: fields) <$> f.merge merge record incoming)
    else (mergeInto? merge record incoming fields).map ((f :: ·) <$> ·)

/-- The counts with the one of the first field of a key raised. -/
def countKey (key : String) : List Field → List Nat → List Nat
  | f :: fields, n :: counts =>
    if f.sourceKey = key then (n + 1) :: counts else n :: countKey key fields counts
  | _, counts => counts

def absorbField (merge : RecordMerge) (g : Gathering) (incoming : Field) :
    Reported Gathering :=
  match mergeInto? merge g.record.name incoming g.record.fields with
  | some merged => do
    let fields ← merged
    return { g with
      record := { g.record with fields := fields }
      seen := countKey incoming.sourceKey g.record.fields g.seen }
  | none => do
    let record ← g.record.addReporting incoming
    return { g with record := record, seen := g.seen ++ [1] }

/-- Takes in the fields of an example one after another. -/
def absorbFields (merge : RecordMerge) (g : Gathering) : List Field → Reported Gathering
  | [] => pure g
  | f :: fields => do
    let g ← g.absorbField merge f
    g.absorbFields merge fields

def absorb (merge : RecordMerge) (g : Gathering) (sample : Record) : Reported Gathering :=
  { g with examples := g.examples + 1 }.absorbFields merge sample.fields

/-- The fields, those seen less often than there were examples being optional. -/
def withPresence (examples : Nat) : List Field → List Nat → List Field
  | f :: fields, n :: counts =>
    { f with optional := f.optional || n < examples } :: withPresence examples fields counts
  | fields, _ => fields

def finish (g : Gathering) : Record :=
  { g.record with fields := withPresence g.examples g.record.fields g.seen }

end Gathering

/-- One record that covers two, for records nested at most `depth` deep. -/
def Record.mergeWithin : Nat → RecordMerge
  | 0, a, _ => pure a
  | depth + 1, a, b => do
    let g ← (Gathering.start a.name).absorb (mergeWithin depth) a
    let g ← g.absorb (mergeWithin depth) b
    return g.finish

/-- One record that covers two, as if their examples had been seen together. -/
def Record.merge (a b : Record) : Reported Record :=
  mergeWithin (max a.depth b.depth) a b

end Exemplar
