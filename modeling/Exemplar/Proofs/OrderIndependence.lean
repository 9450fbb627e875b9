import Exemplar.Proofs.AccountsInference
import Exemplar.Proofs.Rearrangement
import Exemplar.Proofs.Sorting
import Exemplar.Proofs.SummaryInference

/-!
# The order of a document hardly matters

Examples may come in any order, and so may the members of objects and the elements of arrays inside
them: the record is the same but for the order of fields, the numbers behind identifiers and the
samples. The summary is shown to be the same first; the keys, the values of a key and their form do
not depend on any order. Identifiers come from the keys in either case.
-/

namespace Exemplar

/-- Fields in the order of their keys. -/
def Field.sortByKey (fields : List Field) : List Field :=
  fields.mergeSort fun a b => decide (a.sourceKey ≤ b.sourceKey)

mutual

/-- A shape whose records say nothing about order. -/
def Shape.unordered : Shape → Shape
  | .scalar kind => .scalar kind
  | .struct record => .struct record.unordered
  | .structSlice record => .structSlice record.unordered
  | .slice element => .slice element.unordered
  | .anySlice => .anySlice
  | .any => .any

/-- A record without identifiers and samples, and with its fields in the order of their keys, at
every depth. -/
def Record.unordered : Record → Record
  | ⟨name, fields⟩ => ⟨name, Field.sortByKey (Field.allUnordered fields)⟩

/-- Fields without identifiers and samples. -/
def Field.allUnordered : List Field → List Field
  | [] => []
  | field :: fields => field.unordered :: Field.allUnordered fields

/-- A field without its identifier and its sample, and the same inside its shape. -/
def Field.unordered : Field → Field
  | ⟨sourceKey, _, shape, optional, _⟩ => ⟨sourceKey, "", shape.unordered, optional, none⟩

end

theorem Field.allUnordered_eq_map (fields : List Field) :
    Field.allUnordered fields = fields.map Field.unordered := by
  induction fields with
  | nil => rfl
  | cons f fields ih => rw [Field.allUnordered, ih, List.map_cons]

theorem Record.unordered_eq_mk (r : Record) :
    r.unordered = ⟨r.name, Field.sortByKey (r.fields.map Field.unordered)⟩ := by
  cases r with
  | mk name fields => rw [Record.unordered, Field.allUnordered_eq_map]

theorem Field.unordered_eq_mk (f : Field) :
    f.unordered = ⟨f.sourceKey, "", f.shape.unordered, f.optional, none⟩ := by
  cases f; rfl

mutual

theorem Shape.unordered_keyed : ∀ a : Shape, a.keyed.unordered = a.unordered
  | .scalar _ | .anySlice | .any => rfl
  | .struct r => by rw [Shape.keyed, Shape.unordered, Shape.unordered, Record.unordered_keyed r]
  | .structSlice r => by
    rw [Shape.keyed, Shape.unordered, Shape.unordered, Record.unordered_keyed r]
  | .slice element => by
    rw [Shape.keyed, Shape.unordered, Shape.unordered, Shape.unordered_keyed element]

theorem Record.unordered_keyed : ∀ r : Record, r.keyed.unordered = r.unordered
  | ⟨name, fields⟩ => by
    rw [Record.keyed, Record.unordered, Record.unordered, Field.allUnordered_allKeyed fields]

theorem Field.allUnordered_allKeyed : ∀ fields : List Field,
    Field.allUnordered (Field.allKeyed fields) = Field.allUnordered fields
  | [] => rfl
  | f :: fields => by
    rw [Field.allKeyed, Field.allUnordered, Field.allUnordered, Field.unordered_keyed f,
      Field.allUnordered_allKeyed fields]

theorem Field.unordered_keyed : ∀ f : Field, f.keyed.unordered = f.unordered
  | ⟨_, _, shape, _, _⟩ => by
    rw [Field.keyed, Field.unordered, Field.unordered, Shape.unordered_keyed shape]

end

/-- Fields of different keys have one order by keys. -/
theorem Field.sortByKey_eq_of_perm {fields fields' : List Field} (h : fields.Perm fields')
    (hkeys : (fields.map Field.sourceKey).Nodup) :
    Field.sortByKey fields = Field.sortByKey fields' :=
  Field.mergeSort_eq_of_perm Field.sourceKey h hkeys

namespace Summary

variable {initialisms : Initialisms}

/-- Members whose keys have the same values, in another order each. -/
def MembersAlike (ms ns : List (String × Value)) : Prop :=
  ∀ key, Option.Rel Value.Alike (ms.lookup key) (ns.lookup key)

section

variable {xs ys : List (List (String × Value))} (h : Matched MembersAlike xs ys) (key : String)
include h

theorem observed_matched :
    Matched Value.Alike (Examples.observed key xs) (Examples.observed key ys) :=
  h.filterMap fun _ _ hms => hms key

theorem lacks_eq_of_matched : Examples.lacks key xs = Examples.lacks key ys := by
  refine h.any_eq fun ms ns hms => ?_
  have hlookup := hms key
  generalize ms.lookup key = v at hlookup ⊢
  generalize ns.lookup key = w at hlookup ⊢
  cases hlookup <;> rfl

theorem keys_perm_of_matched : (Examples.keys xs).Perm (Examples.keys ys) := by
  refine (List.perm_ext_iff_of_nodup (Examples.nodup_keys xs) (Examples.nodup_keys ys)).mpr ?_
  intro key
  have hnil := (observed_matched h key).eq_nil_iff
  rw [Examples.observed_eq_nil_iff, Examples.observed_eq_nil_iff] at hnil
  exact not_iff_not.mp hnil

end

theorem concrete_matched {vs ws : List Value} (h : Matched Value.Alike vs ws) :
    Matched Value.Alike (concrete vs) (concrete ws) :=
  h.filter fun v w hvw => by rw [hvw.2.isNull_eq]

theorem mixesNull_eq_of_matched {vs ws : List Value} (h : Matched Value.Alike vs ws) :
    mixesNull vs = mixesNull ws := by
  have hsame : ∀ v w : Value, v.Alike w → v.isNull = w.isNull := fun v w hvw => hvw.2.isNull_eq
  rw [mixesNull, mixesNull, h.any_eq hsame, h.all_eq hsame]

/-- Examples in another order have the same record, but for order. -/
def RecordUnordered (initialisms : Initialisms) (name : String)
    (xs : List (List (String × Value))) : Prop :=
  ∀ ys, Matched MembersAlike xs ys →
    (record initialisms name xs).unordered = (record initialisms name ys).unordered

def ShapeUnordered (initialisms : Initialisms) (name : String) (vs : List Value) : Prop :=
  ∀ ws, Matched Value.Alike vs ws →
    (shape initialisms name vs).unordered = (shape initialisms name ws).unordered

def SliceUnordered (initialisms : Initialisms) (name : String) (es : List Value) : Prop :=
  ∀ fs, Matched Value.Alike es fs →
    (slice initialisms name es).unordered = (slice initialisms name fs).unordered

theorem recordUnordered_of_shapes {name : String} {xs : List (List (String × Value))}
    (ih : ∀ key, ShapeUnordered initialisms (Identifier.ofKey initialisms key)
      (Examples.observed key xs)) : RecordUnordered initialisms name xs := by
  intro ys h
  have hfield : ∀ key, (field initialisms xs key).unordered =
      (field initialisms ys key).unordered := by
    intro key
    have hobserved := observed_matched h key
    rw [Field.unordered_eq_mk, Field.unordered_eq_mk]
    simp only [field]
    rw [ih key _ hobserved, lacks_eq_of_matched h key, mixesNull_eq_of_matched hobserved]
  have hfields : Field.unordered ∘ field initialisms xs = Field.unordered ∘ field initialisms ys :=
    funext hfield
  have hperm := (keys_perm_of_matched h).map (Field.unordered ∘ field initialisms xs)
  have hkeys : ((Examples.keys xs).map (Field.unordered ∘ field initialisms xs)).map
      Field.sourceKey = Examples.keys xs := by
    rw [List.map_map]
    exact List.map_id _
  rw [record_eq, record_eq, Record.unordered_eq_mk, Record.unordered_eq_mk, List.map_map,
    List.map_map, ← hfields]
  refine congrArg _ (Field.sortByKey_eq_of_perm hperm ?_)
  rw [hkeys]
  exact Examples.nodup_keys xs

theorem joined_unordered {name : String} {vs ws : List Value} (h : Matched Value.Alike vs ws)
    (ih : vs.any (·.elements.isEmpty) = false →
      SliceUnordered initialisms name (vs.flatMap Value.elements)) :
    (joined initialisms name vs).unordered = (joined initialisms name ws).unordered := by
  have helements := h.flatMap fun v w hvw => hvw.elements
  have hempty : vs.any (·.elements.isEmpty) = ws.any (·.elements.isEmpty) := by
    refine h.any_eq fun v w hvw => ?_
    rw [Bool.eq_iff_iff, List.isEmpty_iff, List.isEmpty_iff, hvw.elements.eq_nil_iff]
  rw [joined, joined, ← hempty]
  cases hvs : vs.any (·.elements.isEmpty) with
  | true => rfl
  | false => exact ih hvs _ helements

theorem members_matched {vs ws : List Value} (h : Matched Value.Alike vs ws) :
    Matched MembersAlike (vs.map Value.members) (ws.map Value.members) :=
  h.map fun _ _ hvw key => hvw.lookup key

theorem shapeUnordered_of_parts {name : String} {vs : List Value}
    (hrecord : form (concrete vs) = .objects →
      RecordUnordered initialisms name ((concrete vs).map Value.members))
    (hslice : form (concrete vs) = .arrays → (concrete vs).any (·.elements.isEmpty) = false →
      SliceUnordered initialisms name ((concrete vs).flatMap Value.elements)) :
    ShapeUnordered initialisms name vs := by
  intro ws h
  have hconcrete := concrete_matched h
  rw [shape_eq, shape_eq, ← form_eq_of_matched hconcrete]
  cases hf : form (concrete vs) with
  | objects => exact congrArg Shape.struct (hrecord hf _ (members_matched hconcrete))
  | arrays => exact joined_unordered hconcrete (hslice hf)
  | _ => rfl

theorem unordered_sliceOf (a : Shape) : (sliceOf a).unordered = sliceOf a.unordered := by
  cases a <;> rfl

theorem sliceUnordered_of_parts {name : String} {es : List Value}
    (hrecord : form es = .objects → RecordUnordered initialisms name (es.map Value.members))
    (hslice : form es = .arrays → es.any (·.elements.isEmpty) = false →
      SliceUnordered initialisms name (es.flatMap Value.elements)) :
    SliceUnordered initialisms name es := by
  intro fs h
  rw [slice_eq, slice_eq, ← form_eq_of_matched h]
  cases hf : form es with
  | objects => exact congrArg Shape.structSlice (hrecord hf _ (members_matched h))
  | arrays =>
    dsimp only
    rw [unordered_sliceOf, unordered_sliceOf, joined_unordered h (hslice hf)]
  | _ => rfl

/-- No summary depends on the order of examples, members and elements, but for order. -/
theorem unordered (initialisms : Initialisms) :
    (∀ name xs, RecordUnordered initialisms name xs) ∧
      (∀ name vs, ShapeUnordered initialisms name vs) ∧
      ∀ name es, SliceUnordered initialisms name es := by
  apply induct initialisms
  · intro name xs ih
    exact recordUnordered_of_shapes ih
  · intro name vs hrecord hslice
    exact shapeUnordered_of_parts hrecord hslice
  · intro name es hrecord hslice
    exact sliceUnordered_of_parts hrecord hslice

end Summary

/-- Every identifier in a record is that of its key, but for digits behind it. -/
def Record.Numbered (initialisms : Initialisms) (r : Record) : Prop :=
  ∀ inner ∈ r.records, ∀ f ∈ inner.fields, ∃ digits : List Char, (∀ c ∈ digits, c.isDigit) ∧
    f.identifier = Identifier.ofKey initialisms f.sourceKey ++ String.ofList digits

namespace Record

theorem numbered_ofObjects (initialisms : Initialisms) (name : String) (values : List Value) :
    (ofObjects initialisms name values).result.Numbered initialisms := by
  have hvalues : ∀ v ∈ values, v.Accounted initialisms := fun v _ => v.accounted initialisms
  have hgathered := Value.accounted_ofObjects hvalues (Gathering.accounted_start [] name)
  exact fun inner hinner f hf => (hgathered.2.finish inner hinner f hf).numbered

/-- Examples in another order, which may be another one inside them too, have the same record but
for the order of its fields, the numbers behind its identifiers, and samples. -/
theorem unordered_ofObjects_of_rearranged (initialisms : Initialisms) (name : String)
    {values others : List Value} (hobjects : values.all Value.isObject)
    (hkeys : ∀ v ∈ values, v.keysDistinct)
    (h : (Value.array values).Rearranged (.array others)) :
    (ofObjects initialisms name others).result.unordered =
        (ofObjects initialisms name values).result.unordered ∧
      (ofObjects initialisms name values).result.Numbered initialisms ∧
      (ofObjects initialisms name others).result.Numbered initialisms := by
  have hdistinct := (Value.keysDistinct_array values).mpr hkeys
  have hdistinct' := Value.keysDistinct_of_rearranged h hdistinct
  have hothers := (Value.keysDistinct_array others).mp hdistinct'
  have halike : (Value.array values).Alike (.array others) := ⟨hdistinct, h⟩
  have hmatched : Matched Value.Alike values others := halike.elements
  have hobjects' : others.all Value.isObject := by
    rw [← hmatched.all_eq fun v w hvw => hvw.2.isObject_eq, hobjects]
  have hsummary := keyed_ofObjects initialisms name hobjects hkeys
  have hsummary' := keyed_ofObjects initialisms name hobjects' hothers
  have hsame := (Summary.unordered initialisms).1 name _ _ (Summary.members_matched hmatched)
  rw [← hsummary, ← hsummary', unordered_keyed, unordered_keyed] at hsame
  exact ⟨hsame.symm, numbered_ofObjects initialisms name values,
    numbered_ofObjects initialisms name others⟩

theorem unordered_ofObjects_of_rearranged_of_two :
    let values : List Value :=
      [.object [("id", .integer 1), ("tags", .array [.string "a", .null])], .object []]
    let others : List Value :=
      [.object [], .object [("tags", .array [.null, .string "a"]), ("id", .integer 1)]]
    values.all Value.isObject ∧ (∀ v ∈ values, v.keysDistinct) ∧
      (Value.array values).Rearranged (.array others) ∧
      (ofObjects Initialisms.standard "Item" others).result.unordered =
        (ofObjects Initialisms.standard "Item" values).result.unordered := by
  intro values others
  have hobjects : values.all Value.isObject := rfl
  have hkeys : ∀ v ∈ values, v.keysDistinct := by decide
  have htags : (Value.array [.string "a", .null]).Rearranged (.array [.null, .string "a"]) :=
    .array (.cons (.scalar rfl) (.cons (.scalar rfl) .nil)) (.swap ..)
  have hfirst :
      (Value.object [("id", .integer 1), ("tags", .array [.string "a", .null])]).Rearranged
        (.object [("tags", .array [.null, .string "a"]), ("id", .integer 1)]) :=
    .object (.cons (.mk (.scalar rfl)) (.cons (.mk htags) .nil)) (.swap ..)
  have hsecond : (Value.object []).Rearranged (.object []) := .object .nil .nil
  have h : (Value.array values).Rearranged (.array others) :=
    .array (.cons hfirst (.cons hsecond .nil)) (.swap ..)
  exact ⟨hobjects, hkeys, h,
    (unordered_ofObjects_of_rearranged Initialisms.standard "Item" hobjects hkeys h).1⟩

end Record

end Exemplar
