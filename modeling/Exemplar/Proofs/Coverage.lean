import Exemplar.Proofs.SummaryInference

/-!
# Every document fits what is inferred from it

`takes` says which values a shape, a record or a root stands for. It does not look at identifiers,
so it is enough to follow the summary: every value that was summed up is taken by the result.
-/

namespace Exemplar

/-- Whether a kind stands for values of another kind. Null is taken by null only. -/
def ScalarKind.takes (kind found : ScalarKind) : Bool :=
  found.join? kind = some kind && (found ≠ .null || kind = .null)

mutual

/-- Whether a shape stands for a value. -/
def Shape.takes : Shape → Value → Bool
  | .scalar kind, v => v.scalarKind?.any kind.takes
  | .struct r, v => v.isObject && r.takes v.members
  | .structSlice r, v =>
    v.isArray && !v.elements.isEmpty && v.elements.all fun e => e.isObject && r.takes e.members
  | .slice element, v =>
    v.isArray && !v.elements.isEmpty && v.elements.all fun e => element.takes e
  | .anySlice, v => v.isArray
  | .any, v => !v.isNull

/-- Whether a record stands for an object with the given members: every member fits the field of
its key, and no field is missing but optional ones. -/
def Record.takes : Record → List (String × Value) → Bool
  | ⟨_, fields⟩, members =>
    members.all (fun m => Field.takesAt fields m.1 m.2) &&
      fields.all fun f => f.optional || (members.lookup f.sourceKey).isSome

/-- Whether the field of a key stands for a value. No field takes a key that none has. -/
def Field.takesAt : List Field → String → Value → Bool
  | [], _, _ => false
  | f :: fields, key, v =>
    if f.sourceKey = key then f.takes v else Field.takesAt fields key v

/-- Whether a field stands for a value; an optional field takes null. -/
def Field.takes : Field → Value → Bool
  | ⟨_, _, shape, optional, _⟩, v => shape.takes v || (v.isNull && optional)

end

/-- Whether a root stands for a document: a record for an object or for every element of an array,
a slice for an array. -/
def Root.takes : Root → Value → Bool
  | .record r, .object members => r.takes members
  | .record r, .array elements => elements.all fun e => e.isObject && r.takes e.members
  | .slice _ shape, .array elements => shape.takes (.array elements)
  | .record _, _ | .slice _ _, _ => false

theorem Field.takes_eq (f : Field) (v : Value) :
    f.takes v = (f.shape.takes v || (v.isNull && f.optional)) := by
  cases f
  rw [Field.takes]

mutual

theorem Shape.takes_keyed : ∀ (a : Shape) (v : Value), a.keyed.takes v = a.takes v
  | .scalar _, _ | .anySlice, _ | .any, _ => rfl
  | .struct r, v => by
    rw [Shape.keyed, Shape.takes, Shape.takes, Record.takes_keyed r]
  | .structSlice r, v => by
    rw [Shape.keyed, Shape.takes, Shape.takes]
    simp only [Record.takes_keyed r]
  | .slice element, v => by
    rw [Shape.keyed, Shape.takes, Shape.takes]
    simp only [Shape.takes_keyed element]

theorem Record.takes_keyed : ∀ (r : Record) (members : List (String × Value)),
    r.keyed.takes members = r.takes members
  | ⟨_, fields⟩, members => by
    rw [Record.keyed, Record.takes, Record.takes]
    simp only [Field.takesAt_allKeyed fields]
    rw [Field.allKeyed_eq_map, List.all_map]
    congr 2
    funext f
    rw [Function.comp_apply, Field.keyed_optional, Field.keyed_sourceKey]

theorem Field.takesAt_allKeyed : ∀ (fields : List Field) (key : String) (v : Value),
    Field.takesAt (Field.allKeyed fields) key v = Field.takesAt fields key v
  | [], _, _ => rfl
  | f :: fields, key, v => by
    rw [Field.allKeyed, Field.takesAt, Field.takesAt, Field.keyed_sourceKey, Field.takes_keyed f,
      Field.takesAt_allKeyed fields]

theorem Field.takes_keyed : ∀ (f : Field) (v : Value), f.keyed.takes v = f.takes v
  | ⟨_, _, shape, _, _⟩, v => by
    rw [Field.keyed, Field.takes, Field.takes, Shape.takes_keyed shape]

end

namespace Summary

variable {initialisms : Initialisms}

theorem takes_of_promotesTo {found kind : ScalarKind} (h : found.promotesTo kind) :
    kind.takes found := by
  cases found <;> cases kind <;> first | rfl | contradiction

theorem scalar_takes {v : Value} {values : List Value} {kind : ScalarKind} (hv : v ∈ values)
    (h : form values = .scalars kind) : (Shape.scalar kind).takes v := by
  obtain ⟨k, hk, hle⟩ := (kind?_eq_some_iff.mp (form_eq_scalars_iff.mp h).2).2 v hv
  rw [Shape.takes, hk]
  exact takes_of_promotesTo hle

/-- An array is taken if its elements are, whatever their shape is. -/
theorem sliceOf_takes {a : Shape} {elements : List Value} (hne : elements ≠ [])
    (h : ∀ v ∈ elements, a.takes v) : (sliceOf a).takes (.array elements) := by
  by_cases ha : a = .anySlice
  · subst ha
    rfl
  · have hslice : sliceOf a = .slice a := by
      cases a <;> first | rfl | contradiction
    rw [hslice, Shape.takes]
    simpa [Value.isArray, Value.elements, hne] using h

theorem takesAt_map {keys : List String} {field : String → Field} {key : String} (v : Value)
    (hfield : ∀ k ∈ keys, (field k).sourceKey = k) (hkey : key ∈ keys) :
    Field.takesAt (keys.map field) key v = (field key).takes v := by
  induction keys with
  | nil => exact absurd hkey List.not_mem_nil
  | cons k keys ih =>
    obtain ⟨hk, hrest⟩ := List.forall_mem_cons.mp hfield
    rw [List.map_cons, Field.takesAt, hk]
    by_cases he : k = key
    · rw [if_pos he, he]
    · rw [if_neg he]
      exact ih hrest ((List.mem_cons.mp hkey).resolve_left (Ne.symm he))

/-- The record of examples takes each of them. -/
def RecordTakes (initialisms : Initialisms) (name : String)
    (examples : List (List (String × Value))) : Prop :=
  ∀ members ∈ examples, (Value.object members).keysDistinct →
    (record initialisms name examples).takes members

/-- The shape of values takes each of them, except null among others. -/
def ShapeTakes (initialisms : Initialisms) (name : String) (values : List Value) : Prop :=
  ∀ v ∈ values, v.isNull = false → v.keysDistinct → (shape initialisms name values).takes v

/-- The shape of an array takes every array of some of its elements. -/
def SliceTakes (initialisms : Initialisms) (name : String) (elements : List Value) : Prop :=
  ∀ part : List Value, part ≠ [] → part ⊆ elements → (∀ v ∈ part, v.keysDistinct) →
    (slice initialisms name elements).takes (.array part)

theorem recordTakes_of_parts {name : String} {examples : List (List (String × Value))}
    (h : ∀ key, ShapeTakes initialisms (Identifier.ofKey initialisms key)
      (Examples.observed key examples)) : RecordTakes initialisms name examples := by
  intro members hmembers hkeys
  obtain ⟨hnodup, hdistinct⟩ := (Value.keysDistinct_object members).mp hkeys
  rw [record_eq, Record.takes, Bool.and_eq_true]
  constructor
  · refine List.all_eq_true.mpr fun m hm => ?_
    have hkey : m.1 ∈ Examples.keys examples :=
      (Examples.mem_keys m.1 examples).mpr ⟨members, hmembers, List.mem_map_of_mem hm⟩
    have hobserved : m.2 ∈ Examples.observed m.1 examples :=
      List.mem_filterMap.mpr ⟨members, hmembers, Examples.lookup_of_mem hnodup hm⟩
    rw [takesAt_map m.2 (fun _ _ => rfl) hkey, Field.takes_eq, Bool.or_eq_true]
    cases hnull : m.2.isNull with
    | false => exact Or.inl (h m.1 m.2 hobserved hnull (hdistinct m hm))
    | true =>
      -- null is the only value of the key, or the field is optional
      cases hall : (Examples.observed m.1 examples).all Value.isNull with
      | true =>
        left
        have hconcrete := concrete_eq_nil_iff.mpr hall
        rw [field, shape_eq, form_eq_nothing_iff.mpr hconcrete, Shape.takes,
          (Value.scalarKind?_eq_null_iff m.2).mpr hnull]
        rfl
      | false =>
        right
        have hany : (Examples.observed m.1 examples).any Value.isNull :=
          List.any_eq_true.mpr ⟨m.2, hobserved, hnull⟩
        rw [field, mixesNull, hany, hall]
        exact Bool.or_true _
  · rw [List.all_map]
    refine List.all_eq_true.mpr fun key _ => ?_
    rw [Function.comp_apply, Bool.or_eq_true]
    cases hlookup : members.lookup (field initialisms examples key).sourceKey with
    | some v => exact Or.inr rfl
    | none =>
      left
      have hlacks : Examples.lacks key examples :=
        List.any_eq_true.mpr ⟨members, hmembers, Option.isNone_iff_eq_none.mpr hlookup⟩
      rw [field, hlacks, Bool.true_or]

theorem joined_takes {name : String} {arrays : List Value} {v : Value} (hv : v ∈ arrays)
    (harray : v.isArray) (hkeys : v.keysDistinct)
    (h : arrays.any (·.elements.isEmpty) = false →
      SliceTakes initialisms name (arrays.flatMap Value.elements)) :
    (joined initialisms name arrays).takes v := by
  obtain ⟨elements, rfl⟩ : ∃ elements, v = .array elements :=
    ⟨v.elements, (Value.array_elements harray).symm⟩
  rw [joined]
  cases hempty : arrays.any (·.elements.isEmpty) with
  | true => rfl
  | false =>
    rw [if_neg Bool.false_ne_true]
    refine h hempty elements ?_ ?_ ((Value.keysDistinct_array elements).mp hkeys)
    · intro he
      have hnot := List.any_eq_false.mp hempty _ hv
      exact hnot (by rw [he]; rfl)
    · exact fun w hw => List.mem_flatMap.mpr ⟨_, hv, hw⟩

theorem shapeTakes_of_parts {name : String} {values : List Value}
    (hrecord : form (concrete values) = .objects →
      RecordTakes initialisms name ((concrete values).map Value.members))
    (hslice : form (concrete values) = .arrays →
      (concrete values).any (·.elements.isEmpty) = false →
      SliceTakes initialisms name ((concrete values).flatMap Value.elements)) :
    ShapeTakes initialisms name values := by
  intro v hv hnull hkeys
  have hconcrete := mem_concrete.mpr ⟨hv, hnull⟩
  rw [shape_eq]
  cases hf : form (concrete values) with
  | nothing =>
    rw [form_eq_nothing_iff.mp hf] at hconcrete
    exact absurd hconcrete List.not_mem_nil
  | scalars kind => exact scalar_takes hconcrete hf
  | objects =>
    have hobject := List.all_eq_true.mp (form_eq_objects_iff.mp hf).2 v hconcrete
    rw [Shape.takes, hobject, Bool.true_and]
    refine hrecord hf v.members (List.mem_map_of_mem hconcrete) ?_
    rwa [Value.object_members hobject]
  | arrays =>
    have harray := List.all_eq_true.mp (form_eq_arrays_iff.mp hf).2 v hconcrete
    exact joined_takes hconcrete harray hkeys (hslice hf)
  | mixed =>
    rw [Shape.takes, hnull]
    rfl

theorem sliceTakes_of_parts {name : String} {elements : List Value}
    (hrecord : form elements = .objects →
      RecordTakes initialisms name (elements.map Value.members))
    (hslice : form elements = .arrays → elements.any (·.elements.isEmpty) = false →
      SliceTakes initialisms name (elements.flatMap Value.elements)) :
    SliceTakes initialisms name elements := by
  intro part hne hpart hkeys
  rw [slice_eq]
  cases hf : form elements with
  | nothing =>
    rw [form_eq_nothing_iff.mp hf] at hpart
    exact absurd (List.subset_nil.mp hpart) hne
  | scalars kind =>
    exact sliceOf_takes (a := .scalar kind) hne fun v hv => scalar_takes (hpart hv) hf
  | objects =>
    rw [Shape.takes]
    simp only [Value.isArray, Value.elements, Bool.true_and, Bool.and_eq_true,
      Bool.not_eq_true', List.isEmpty_eq_false_iff, List.all_eq_true]
    refine ⟨hne, fun v hv => ?_⟩
    have hobject := List.all_eq_true.mp (form_eq_objects_iff.mp hf).2 v (hpart hv)
    refine ⟨hobject, hrecord hf v.members (List.mem_map_of_mem (hpart hv)) ?_⟩
    rw [Value.object_members hobject]
    exact hkeys v hv
  | arrays =>
    refine sliceOf_takes hne fun v hv => ?_
    have harray := List.all_eq_true.mp (form_eq_arrays_iff.mp hf).2 v (hpart hv)
    exact joined_takes (hpart hv) harray (hkeys v hv) (hslice hf)
  | mixed => rfl

theorem takes (initialisms : Initialisms) :
    (∀ name examples, RecordTakes initialisms name examples) ∧
      (∀ name values, ShapeTakes initialisms name values) ∧
      ∀ name elements, SliceTakes initialisms name elements := by
  apply induct initialisms
  · intro name examples ih
    exact recordTakes_of_parts ih
  · intro name values hrecord hslice
    exact shapeTakes_of_parts hrecord hslice
  · intro name elements hrecord hslice
    exact sliceTakes_of_parts hrecord hslice

end Summary

namespace Root

/-- A document that can be described fits its description. -/
theorem takes_of_ofDocument (initialisms : Initialisms) (name : String) (index : Nat) {d : Value}
    {described : Reported Root} (hkeys : d.keysDistinct)
    (h : ofDocument initialisms name index d = .ok described) : described.result.takes d := by
  cases d with
  | object members =>
    obtain rfl := Except.ok.inj h
    have hkeyed := Value.described initialisms (.object members) hkeys name
    change (Record.addMembers initialisms (Record.empty name) members).result.takes members
    rw [← Record.takes_keyed, hkeyed]
    exact (Summary.takes initialisms).1 name [members] members List.mem_cons_self hkeys
  | array elements =>
    have helements := (Value.keysDistinct_array elements).mp hkeys
    rw [ofDocument] at h
    cases hobjects : elements.all Value.isObject with
    | true =>
      rw [if_pos hobjects] at h
      obtain rfl := Except.ok.inj h
      have hkeyed := Record.keyed_ofObjects initialisms name hobjects helements
      refine List.all_eq_true.mpr fun v hv => ?_
      have hobject := List.all_eq_true.mp hobjects v hv
      rw [hobject, Bool.true_and, ← Record.takes_keyed, hkeyed]
      refine (Summary.takes initialisms).1 name _ v.members (List.mem_map_of_mem hv) ?_
      rw [Value.object_members hobject]
      exact helements v hv
    | false =>
      rw [hobjects, if_neg Bool.false_ne_true] at h
      obtain rfl := Except.ok.inj h
      have hkeyed := Value.described initialisms (.array elements) hkeys name (name ++ "Item")
      have hne : elements ≠ [] := by
        rintro rfl
        contradiction
      change (Shape.ofElements initialisms name (name ++ "Item") elements).result.takes _
      rw [← Shape.takes_keyed, hkeyed]
      exact (Summary.takes initialisms).2.2 _ elements elements hne (List.Subset.refl _) helements
  | _ => contradiction

theorem takes_of_ofDocument_of_array :
    let d : Value := .array
      [.object [("a", .null), ("b", .array [.array [.integer 1], .array []])],
        .object [("a", .object [("c", .string "x")])]]
    d.keysDistinct ∧ ∃ described, ofDocument Initialisms.standard "Item" 0 d = .ok described ∧
      described.result.takes d := by
  intro d
  have hkeys : d.keysDistinct := by decide
  exact ⟨hkeys, _, rfl, takes_of_ofDocument Initialisms.standard "Item" 0 hkeys rfl⟩

end Root

end Exemplar
