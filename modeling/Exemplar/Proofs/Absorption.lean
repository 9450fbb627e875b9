import Exemplar.Proofs.Coverage
import Exemplar.Proofs.Refinement

/-!
# A record takes what leaves it as it is

An example that fits a record changes nothing but samples when it is taken in, and an example that
does not fit leaves a trace. One direction follows from coverage: the record of all examples takes
each of them. For the other one, the summary of examples is shown to stay the same up to samples,
which leaves the identifiers; these stay because a record only grows.
-/

namespace Exemplar

mutual

/-- A shape without the samples of the fields inside it. -/
def Shape.unsampled : Shape → Shape
  | .scalar kind => .scalar kind
  | .struct record => .struct record.unsampled
  | .structSlice record => .structSlice record.unsampled
  | .slice element => .slice element.unsampled
  | .anySlice => .anySlice
  | .any => .any

/-- A record without samples, at every depth. -/
def Record.unsampled : Record → Record
  | ⟨name, fields⟩ => ⟨name, Field.allUnsampled fields⟩

/-- Fields without samples. -/
def Field.allUnsampled : List Field → List Field
  | [] => []
  | field :: fields => field.unsampled :: Field.allUnsampled fields

/-- A field without its sample and those inside its shape. -/
def Field.unsampled : Field → Field
  | ⟨sourceKey, identifier, shape, optional, _⟩ =>
    ⟨sourceKey, identifier, shape.unsampled, optional, none⟩

end

theorem Field.allUnsampled_eq_map (fields : List Field) :
    Field.allUnsampled fields = fields.map Field.unsampled := by
  induction fields with
  | nil => rfl
  | cons f fields ih => rw [Field.allUnsampled, ih, List.map_cons]

theorem Record.unsampled_eq_mk (r : Record) :
    r.unsampled = ⟨r.name, r.fields.map Field.unsampled⟩ := by
  cases r with
  | mk name fields => rw [Record.unsampled, Field.allUnsampled_eq_map]

theorem Field.unsampled_eq_mk (f : Field) :
    f.unsampled = ⟨f.sourceKey, f.identifier, f.shape.unsampled, f.optional, none⟩ := by
  cases f; rfl

mutual

theorem Shape.takes_unsampled : ∀ (a : Shape) (v : Value), a.unsampled.takes v = a.takes v
  | .scalar _, _ | .anySlice, _ | .any, _ => rfl
  | .struct r, v => by
    rw [Shape.unsampled, Shape.takes, Shape.takes, Record.takes_unsampled r]
  | .structSlice r, v => by
    rw [Shape.unsampled, Shape.takes, Shape.takes]
    simp only [Record.takes_unsampled r]
  | .slice element, v => by
    rw [Shape.unsampled, Shape.takes, Shape.takes]
    simp only [Shape.takes_unsampled element]

theorem Record.takes_unsampled : ∀ (r : Record) (members : List (String × Value)),
    r.unsampled.takes members = r.takes members
  | ⟨_, fields⟩, members => by
    rw [Record.unsampled, Record.takes, Record.takes]
    simp only [Field.takesAt_allUnsampled fields]
    rw [Field.allUnsampled_eq_map, List.all_map]
    congr 2
    funext f
    rw [Function.comp_apply, Field.unsampled_eq_mk]

theorem Field.takesAt_allUnsampled : ∀ (fields : List Field) (key : String) (v : Value),
    Field.takesAt (Field.allUnsampled fields) key v = Field.takesAt fields key v
  | [], _, _ => rfl
  | f :: fields, key, v => by
    rw [Field.allUnsampled, Field.takesAt, Field.takesAt, Field.takes_unsampled f,
      Field.takesAt_allUnsampled fields, Field.unsampled_eq_mk]

theorem Field.takes_unsampled : ∀ (f : Field) (v : Value), f.unsampled.takes v = f.takes v
  | ⟨_, _, shape, _, _⟩, v => by
    rw [Field.unsampled, Field.takes, Field.takes, Shape.takes_unsampled shape]

end

/-! What has grown into something alike up to identifiers has kept these too. -/

mutual

theorem Shape.unsampled_eq_of_growsTo : ∀ {a b : Shape}, a.growsTo b →
    a.keyed.unsampled = b.keyed.unsampled → a.unsampled = b.unsampled
  | .scalar _, b, _, h => by
    cases b <;> first | exact h | contradiction
  | .struct r, .struct s, hgrows, h =>
    congrArg Shape.struct (Record.unsampled_eq_of_growsTo (r := r) hgrows (Shape.struct.inj h))
  | .structSlice r, .structSlice s, hgrows, h =>
    congrArg Shape.structSlice
      (Record.unsampled_eq_of_growsTo (r := r) hgrows (Shape.structSlice.inj h))
  | .slice a, .slice b, hgrows, h =>
    have helement := Shape.growsTo_of_elementGrowsTo (a := a) hgrows
    congrArg Shape.slice (Shape.unsampled_eq_of_growsTo helement (Shape.slice.inj h))
  | .anySlice, .anySlice, _, _ => rfl
  | .any, .any, _, _ => rfl

theorem Record.unsampled_eq_of_growsTo : ∀ {r s : Record}, r.growsTo s →
    r.keyed.unsampled = s.keyed.unsampled → r.unsampled = s.unsampled
  | ⟨_, fields⟩, ⟨_, fields'⟩, hgrows, h => by
    obtain ⟨hname, hfields⟩ := Record.growsTo_iff.mp hgrows
    have hsame := Field.allUnsampled_eq_of_allGrowTo hfields (Record.mk.inj h).2
    rw [Record.unsampled, Record.unsampled, hsame]
    exact congrArg (Record.mk · _) hname

theorem Field.allUnsampled_eq_of_allGrowTo : ∀ {fields fields' : List Field},
    Field.allGrowTo fields fields' →
    Field.allUnsampled (Field.allKeyed fields) = Field.allUnsampled (Field.allKeyed fields') →
    Field.allUnsampled fields = Field.allUnsampled fields'
  | [], [], _, _ => rfl
  | f :: fields, g :: fields', hgrow, h => by
    obtain ⟨hfirst, hrest⟩ := Field.allGrowTo_cons.mp hgrow
    obtain ⟨hf, hfields⟩ := List.cons.inj h
    rw [Field.allUnsampled, Field.allUnsampled, Field.unsampled_eq_of_growsTo hfirst hf,
      Field.allUnsampled_eq_of_allGrowTo hrest hfields]

theorem Field.unsampled_eq_of_growsTo : ∀ {f g : Field}, f.growsTo g →
    f.keyed.unsampled = g.keyed.unsampled → f.unsampled = g.unsampled
  | ⟨_, _, shape, _, _⟩, ⟨_, _, shape', _, _⟩, hgrows, h => by
    obtain ⟨hkey, hidentifier, hshape, -⟩ := Field.growsTo_iff.mp hgrows
    obtain ⟨-, -, hsame, hoptional, -⟩ := Field.mk.inj h
    have hshapes := Shape.unsampled_eq_of_growsTo hshape hsame
    rw [Field.unsampled, Field.unsampled, hshapes]
    dsimp only at hkey hidentifier hoptional
    rw [hkey, hidentifier, hoptional]

end

/-! What a shape takes -/

namespace Shape

/-- Null is taken by null, and nothing else is. -/
theorem isNull_of_takes {a : Shape} {v : Value} (h : a.takes v) : v.isNull = a.isNull := by
  cases a with
  | scalar kind =>
    obtain ⟨found, hfound, hkind⟩ := (Option.any_eq_true ..).mp h
    have hnull := Value.scalarKind?_eq_null_iff v
    rw [hfound] at hnull
    cases found <;> cases kind <;> simp_all [ScalarKind.takes, ScalarKind.join?, isNull]
  | any =>
    rw [takes, Bool.not_eq_true'] at h
    exact h
  | _ => cases v <;> first | rfl | contradiction

theorem isArray_of_takes {a : Shape} {v : Value} (ha : a.isSlice) (h : a.takes v) :
    v.isArray := by
  cases a <;> first | contradiction | cases v <;> first | rfl | contradiction

/-- Only a slice of anything takes an array without elements. -/
theorem any_isEmpty_of_takes {a : Shape} {arrays : List Value} (ha : a.isSlice)
    (hany : a ≠ .anySlice) (h : ∀ v ∈ arrays, a.takes v) :
    arrays.any (·.elements.isEmpty) = false := by
  refine List.any_eq_false.mpr fun v hv => ?_
  have hv := h v hv
  cases a <;> simp_all [takes, isSlice]

/-- The elements of arrays that are taken make up an array that is taken. -/
theorem takes_flatMap {a : Shape} {arrays : List Value} (ha : a.isSlice) (hne : arrays ≠ [])
    (h : ∀ v ∈ arrays, a.takes v) : a.takes (.array (arrays.flatMap Value.elements)) := by
  by_cases hany : a = .anySlice
  · rw [hany]
    rfl
  · have hfull := any_isEmpty_of_takes ha hany h
    have hnonempty := List.isEmpty_eq_false_iff.mpr (Summary.flatMap_elements_ne_nil hne hfull)
    cases a with
    | structSlice _ | slice _ =>
      rw [takes, Value.elements, hnonempty]
      refine List.all_eq_true.mpr fun e he => ?_
      obtain ⟨v, hv, he⟩ := List.mem_flatMap.mp he
      have helements := (Bool.and_eq_true_iff.mp (h v hv)).2
      exact List.all_eq_true.mp helements e he
    | _ => contradiction

end Shape

theorem ScalarKind.promotesTo_of_takes {kind found : ScalarKind} (h : kind.takes found) :
    found.promotesTo kind := by
  cases kind <;> cases found <;> first | rfl | contradiction

theorem Field.exists_of_takesAt {fields : List Field} {key : String} {v : Value}
    (h : Field.takesAt fields key v) : ∃ f ∈ fields, f.sourceKey = key ∧ f.takes v := by
  induction fields with
  | nil => contradiction
  | cons f fields ih =>
    rw [Field.takesAt] at h
    split at h
    · rename_i hkey
      exact ⟨f, List.mem_cons_self, hkey, h⟩
    · obtain ⟨g, hg, hkey, htakes⟩ := ih h
      exact ⟨g, List.mem_cons_of_mem _ hg, hkey, htakes⟩

/-! The summary -/

namespace Summary

variable {initialisms : Initialisms}

/-- Examples that the record of some examples takes do not change it. -/
def RecordAbsorbs (initialisms : Initialisms) (name : String)
    (xs : List (List (String × Value))) : Prop :=
  ∀ ys : List (List (String × Value)),
    (∀ members ∈ ys, (record initialisms name xs).takes members) →
    (record initialisms name (xs ++ ys)).unsampled = (record initialisms name xs).unsampled

/-- Values that the shape of some values takes do not change it, and neither does null. -/
def ShapeAbsorbs (initialisms : Initialisms) (name : String) (vs : List Value) : Prop :=
  ∀ ws : List Value, (∀ w ∈ concrete ws, (shape initialisms name vs).takes w) →
    (shape initialisms name (vs ++ ws)).unsampled = (shape initialisms name vs).unsampled

/-- Elements in an array that the shape of an array takes do not change it. -/
def SliceAbsorbs (initialisms : Initialisms) (name : String) (es : List Value) : Prop :=
  es ≠ [] → ∀ fs : List Value, (slice initialisms name es).takes (.array fs) →
    (slice initialisms name (es ++ fs)).unsampled = (slice initialisms name es).unsampled

/-- What the record of examples takes has values that the fields of their keys take, and lacks only
what is optional. -/
theorem takes_record {name : String} {xs : List (List (String × Value))}
    {members : List (String × Value)} (h : (record initialisms name xs).takes members) :
    (∀ m ∈ members, m.1 ∈ Examples.keys xs ∧ (field initialisms xs m.1).takes m.2) ∧
      ∀ key ∈ Examples.keys xs, (field initialisms xs key).optional = false →
        (members.lookup key).isSome := by
  rw [record_eq, Record.takes, Bool.and_eq_true, List.all_eq_true, List.all_eq_true] at h
  refine ⟨fun m hm => ?_, fun key hkey hrequired => ?_⟩
  · obtain ⟨f, hf, hkey, -⟩ := Field.exists_of_takesAt (h.1 m hm)
    obtain ⟨key, hmem, rfl⟩ := List.mem_map.mp hf
    obtain rfl : key = m.1 := hkey
    have htakes := h.1 m hm
    rw [takesAt_map m.2 (fun _ _ => rfl) hmem] at htakes
    exact ⟨hmem, htakes⟩
  · have hpresent := h.2 _ (List.mem_map_of_mem hkey)
    rw [hrequired, Bool.false_or] at hpresent
    exact hpresent

/-- Values that are null exactly if all those before them are do not mix null in. -/
theorem mixesNull_append_of_isNull {vs ws : List Value}
    (h : ∀ w ∈ ws, w.isNull = vs.all Value.isNull) (hvs : mixesNull vs = false) :
    mixesNull (vs ++ ws) = false := by
  rw [mixesNull, List.any_append, List.all_append]
  cases hall : vs.all Value.isNull with
  | true =>
    have hws : ws.all Value.isNull :=
      List.all_eq_true.mpr fun w hw => (h w hw).trans hall
    rw [hws, Bool.and_self, Bool.not_true, Bool.and_false]
  | false =>
    have hany : vs.any Value.isNull = false := by
      rwa [mixesNull, hall, Bool.not_false, Bool.and_true] at hvs
    have hws : ws.any Value.isNull = false :=
      List.any_eq_false.mpr fun w hw => by simp [h w hw, hall]
    rw [hany, hws, Bool.or_self, Bool.false_and]

theorem mixesNull_append_of_mixesNull {vs : List Value} (ws : List Value)
    (h : mixesNull vs) : mixesNull (vs ++ ws) := by
  rw [mixesNull, Bool.and_eq_true, Bool.not_eq_true'] at h ⊢
  rw [List.any_append, List.all_append, h.1, h.2]
  exact ⟨rfl, rfl⟩

/-- A key of examples is as optional as before. -/
theorem optional_absorbs {xs ys : List (List (String × Value))} {key : String}
    (htakes : ∀ v ∈ Examples.observed key ys, (field initialisms xs key).takes v)
    (hlacks : (field initialisms xs key).optional = false → Examples.lacks key ys = false) :
    (field initialisms (xs ++ ys) key).optional = (field initialisms xs key).optional := by
  have hbefore : (field initialisms xs key).optional =
      (Examples.lacks key xs || mixesNull (Examples.observed key xs)) := rfl
  have hafter : (field initialisms (xs ++ ys) key).optional =
      (Examples.lacks key xs || Examples.lacks key ys ||
        mixesNull (Examples.observed key xs ++ Examples.observed key ys)) := by
    rw [field, Examples.lacks_append, Examples.observed_append]
  rw [hafter]
  cases hold : (field initialisms xs key).optional with
  | true =>
    rw [hbefore, Bool.or_eq_true] at hold
    rcases hold with hlacked | hmixed
    · rw [hlacked, Bool.true_or, Bool.true_or]
    · rw [mixesNull_append_of_mixesNull _ hmixed, Bool.or_true]
  | false =>
    have hys := hlacks hold
    have hnull : ∀ v ∈ Examples.observed key ys,
        v.isNull = (Examples.observed key xs).all Value.isNull := by
      intro v hv
      have hv := htakes v hv
      rw [Field.takes_eq, hold, Bool.and_false, Bool.or_false] at hv
      rw [Shape.isNull_of_takes hv, field, isNull_shape]
    rw [hbefore, Bool.or_eq_false_iff] at hold
    rw [hold.1, hys, mixesNull_append_of_isNull hnull hold.2]
    rfl

/-- Members that are taken bring no new keys. -/
theorem keys_absorbs {name : String} {xs ys : List (List (String × Value))}
    (h : ∀ members ∈ ys, (record initialisms name xs).takes members) :
    Examples.keys (xs ++ ys) = Examples.keys xs := by
  have hknown : (Examples.keys ys).filter (fun key => !(Examples.keys xs).contains key) = [] := by
    refine List.filter_eq_nil_iff.mpr fun key hkey => ?_
    obtain ⟨members, hmembers, hin⟩ := (Examples.mem_keys key ys).mp hkey
    obtain ⟨m, hm, rfl⟩ := List.mem_map.mp hin
    have hmem := ((takes_record (h members hmembers)).1 m hm).1
    simpa using hmem
  rw [Examples.keys_append, hknown, List.append_nil]

theorem recordAbsorbs_of_shapes {name : String} {xs : List (List (String × Value))}
    (ih : ∀ key, ShapeAbsorbs initialisms (Identifier.ofKey initialisms key)
      (Examples.observed key xs)) : RecordAbsorbs initialisms name xs := by
  intro ys h
  rw [record_eq, record_eq, Record.unsampled_eq_mk, Record.unsampled_eq_mk, keys_absorbs h,
    List.map_map, List.map_map]
  refine congrArg _ (List.map_congr_left fun key hkey => ?_)
  have htakes : ∀ v ∈ Examples.observed key ys, (field initialisms xs key).takes v := by
    intro v hv
    obtain ⟨members, hmembers, hlookup⟩ := List.mem_filterMap.mp hv
    obtain ⟨before, after, rfl, -⟩ := List.lookup_eq_some_iff.mp hlookup
    exact ((takes_record (h _ hmembers)).1 (key, v) (by simp)).2
  have hlacks : (field initialisms xs key).optional = false → Examples.lacks key ys = false := by
    intro hrequired
    refine List.any_eq_false.mpr fun members hmembers => ?_
    have hpresent := (takes_record (h members hmembers)).2 key hkey hrequired
    simpa [Option.isNone_iff_eq_none, Option.isSome_iff_ne_none] using hpresent
  have hshape : (field initialisms (xs ++ ys) key).shape.unsampled =
      (field initialisms xs key).shape.unsampled := by
    rw [field, Examples.observed_append]
    refine ih key _ fun v hv => ?_
    obtain ⟨hv, hnull⟩ := mem_concrete.mp hv
    have hv := htakes v hv
    rwa [Field.takes_eq, hnull, Bool.false_and, Bool.or_false] at hv
  rw [Function.comp_apply, Function.comp_apply, Field.unsampled_eq_mk, Field.unsampled_eq_mk,
    hshape, optional_absorbs htakes hlacks]
  rfl

/-- Scalars that the largest kind of some takes do not change it. -/
theorem form_append_of_takes {vs ws : List Value} {kind : ScalarKind}
    (hvs : form vs = .scalars kind) (h : ∀ w ∈ ws, (Shape.scalar kind).takes w) :
    form (vs ++ ws) = .scalars kind := by
  obtain ⟨hne, hkind⟩ := form_eq_scalars_iff.mp hvs
  obtain ⟨⟨v, hv, hvkind⟩, hall⟩ := kind?_eq_some_iff.mp hkind
  refine form_eq_scalars_iff.mpr ⟨by simp [hne], kind?_eq_some_iff.mpr ⟨?_, ?_⟩⟩
  · exact ⟨v, List.mem_append_left _ hv, hvkind⟩
  · refine List.forall_mem_append.mpr ⟨hall, fun w hw => ?_⟩
    obtain ⟨found, hfound, htakes⟩ := (Option.any_eq_true ..).mp (h w hw)
    exact ⟨found, hfound, ScalarKind.promotesTo_of_takes htakes⟩

theorem joined_absorbs {name : String} {vs ws : List Value} (hv : vs ≠ [])
    (ih : vs.any (·.elements.isEmpty) = false →
      SliceAbsorbs initialisms name (vs.flatMap Value.elements))
    (h : ∀ w ∈ ws, (joined initialisms name vs).takes w) :
    (joined initialisms name (vs ++ ws)).unsampled = (joined initialisms name vs).unsampled := by
  by_cases hws : ws = []
  · rw [hws, List.append_nil]
  cases hve : vs.any (·.elements.isEmpty) with
  | true =>
    rw [joined, joined, List.any_append, hve]
    rfl
  | false =>
    have hes := flatMap_elements_ne_nil hv hve
    have hvs : joined initialisms name vs = slice initialisms name (vs.flatMap Value.elements) := by
      rw [joined, hve, if_neg Bool.false_ne_true]
    by_cases hany : slice initialisms name (vs.flatMap Value.elements) = .anySlice
    · rw [hvs, joined, List.flatMap_append, slice_append_of_anySlice _ hes hany, hany, ite_self]
    · rw [hvs] at h ⊢
      have hslice := isSlice_slice initialisms name (vs.flatMap Value.elements)
      have hwe := Shape.any_isEmpty_of_takes hslice hany h
      rw [joined, List.any_append, hve, hwe, Bool.or_self, if_neg Bool.false_ne_true,
        List.flatMap_append]
      exact ih hve hes _ (Shape.takes_flatMap hslice hws h)

theorem form_append_of_objects {vs ws : List Value} (hvs : form vs = .objects)
    (h : ∀ w ∈ ws, w.isObject) : form (vs ++ ws) = .objects := by
  obtain ⟨hne, hall⟩ := form_eq_objects_iff.mp hvs
  refine form_eq_objects_iff.mpr ⟨by simp [hne], ?_⟩
  rw [List.all_append, hall, Bool.true_and]
  exact List.all_eq_true.mpr h

theorem form_append_of_arrays {vs ws : List Value} (hvs : form vs = .arrays)
    (h : ∀ w ∈ ws, w.isArray) : form (vs ++ ws) = .arrays := by
  obtain ⟨hne, hall⟩ := form_eq_arrays_iff.mp hvs
  refine form_eq_arrays_iff.mpr ⟨by simp [hne], ?_⟩
  rw [List.all_append, hall, Bool.true_and]
  exact List.all_eq_true.mpr h

theorem shapeAbsorbs_of_parts {name : String} {vs : List Value}
    (hrecord : form (concrete vs) = .objects →
      RecordAbsorbs initialisms name ((concrete vs).map Value.members))
    (hslice : form (concrete vs) = .arrays → (concrete vs).any (·.elements.isEmpty) = false →
      SliceAbsorbs initialisms name ((concrete vs).flatMap Value.elements)) :
    ShapeAbsorbs initialisms name vs := by
  intro ws h
  rw [shape_eq] at h
  rw [shape_eq, shape_eq, concrete_append]
  cases hf : form (concrete vs) with
  | nothing =>
    rw [hf] at h
    have hws : concrete ws = [] := by
      refine List.eq_nil_iff_forall_not_mem.mpr fun w hw => ?_
      have hnull := (mem_concrete.mp hw).2
      rw [Shape.isNull_of_takes (h w hw)] at hnull
      contradiction
    rw [hws, List.append_nil, hf]
  | scalars kind =>
    rw [hf] at h
    rw [form_append_of_takes hf h]
  | objects =>
    rw [hf] at h
    have htakes : ∀ w ∈ concrete ws, w.isObject ∧ _ := fun w hw =>
      Bool.and_eq_true_iff.mp (h w hw)
    rw [form_append_of_objects hf fun w hw => (htakes w hw).1, List.map_append]
    refine congrArg Shape.struct (hrecord hf _ ?_)
    exact List.forall_mem_map.mpr fun w hw => (htakes w hw).2
  | arrays =>
    rw [hf] at h
    have hslices := isSlice_joined initialisms name (concrete vs)
    rw [form_append_of_arrays hf fun w hw => Shape.isArray_of_takes hslices (h w hw)]
    exact joined_absorbs (form_eq_arrays_iff.mp hf).1 (hslice hf) h
  | mixed =>
    rw [form_append, hf]
    cases form (concrete ws) <;> rfl

theorem unsampled_sliceOf (a : Shape) : (sliceOf a).unsampled = sliceOf a.unsampled := by
  cases a <;> rfl

/-- Each element of an array that a slice takes is taken by the shape of the elements. -/
theorem takes_of_sliceOf_takes {a : Shape} {fs : List Value} (ha : a ≠ .anySlice)
    (h : (sliceOf a).takes (.array fs)) : ∀ v ∈ fs, a.takes v := by
  have hslice : sliceOf a = .slice a := by
    cases a <;> first | rfl | contradiction
  rw [hslice, Shape.takes, Bool.and_eq_true] at h
  exact List.all_eq_true.mp h.2

theorem sliceAbsorbs_of_parts {name : String} {es : List Value}
    (hrecord : form es = .objects → RecordAbsorbs initialisms name (es.map Value.members))
    (hslice : form es = .arrays → es.any (·.elements.isEmpty) = false →
      SliceAbsorbs initialisms name (es.flatMap Value.elements)) :
    SliceAbsorbs initialisms name es := by
  intro hes fs h
  by_cases hany : slice initialisms name es = .anySlice
  · rw [slice_append_of_anySlice fs hes hany, hany]
  rw [slice_eq] at h hany
  rw [slice_eq, slice_eq]
  cases hf : form es with
  | nothing => exact absurd (form_eq_nothing_iff.mp hf) hes
  | scalars kind =>
    rw [hf] at h
    have htakes := takes_of_sliceOf_takes (a := .scalar kind) (by simp) h
    rw [form_append_of_takes hf htakes]
  | objects =>
    rw [hf] at h
    have htakes : ∀ v ∈ fs, v.isObject ∧ _ := fun v hv =>
      Bool.and_eq_true_iff.mp (List.all_eq_true.mp (Bool.and_eq_true_iff.mp h).2 v hv)
    rw [form_append_of_objects hf fun v hv => (htakes v hv).1, List.map_append]
    refine congrArg Shape.structSlice (hrecord hf _ ?_)
    exact List.forall_mem_map.mpr fun v hv => (htakes v hv).2
  | arrays =>
    rw [hf] at h hany
    have hslices := isSlice_joined initialisms name es
    have htakes := takes_of_sliceOf_takes (fun he => hany (by rw [he]; rfl)) h
    rw [form_append_of_arrays hf fun v hv => Shape.isArray_of_takes hslices (htakes v hv)]
    dsimp only
    rw [unsampled_sliceOf, unsampled_sliceOf, joined_absorbs hes (hslice hf) htakes]
  | mixed =>
    rw [hf] at hany
    contradiction

/-- Records, shapes and slices are not changed by what they take. -/
theorem absorbs (initialisms : Initialisms) :
    (∀ name xs, RecordAbsorbs initialisms name xs) ∧
      (∀ name vs, ShapeAbsorbs initialisms name vs) ∧
      ∀ name es, SliceAbsorbs initialisms name es := by
  apply induct initialisms
  · intro name xs ih
    exact recordAbsorbs_of_shapes ih
  · intro name vs hrecord hslice
    exact shapeAbsorbs_of_parts hrecord hslice
  · intro name es hrecord hslice
    exact sliceAbsorbs_of_parts hrecord hslice

end Summary

namespace Record

/-- One more example leaves the record of the others as it is, up to samples, if and only if that
record takes it. -/
theorem unsampled_ofObjects_append_iff (initialisms : Initialisms) (name : String)
    (values : List Value) (members : List (String × Value))
    (hobjects : values.all Value.isObject)
    (hkeys : ∀ v ∈ values ++ [.object members], v.keysDistinct) :
    (ofObjects initialisms name (values ++ [.object members])).result.unsampled =
        (ofObjects initialisms name values).result.unsampled ↔
      (ofObjects initialisms name values).result.takes members := by
  obtain ⟨hvalues, hmembers⟩ := List.forall_mem_append.mp hkeys
  have hall : (values ++ [Value.object members]).all Value.isObject := by
    rw [List.all_append, hobjects]
    rfl
  have hbefore := keyed_ofObjects initialisms name hobjects hvalues
  have hafter := keyed_ofObjects initialisms name hall hkeys
  rw [List.map_append, List.map_singleton] at hafter
  constructor
  · intro h
    have htakes := (Summary.takes initialisms).1 name (values.map Value.members ++ [members])
      members (by simp) (hmembers _ List.mem_cons_self)
    rw [← takes_unsampled, ← h, takes_unsampled, ← takes_keyed, hafter]
    exact htakes
  · intro h
    have hgrows := growsTo_ofObjects initialisms name values [.object members] hkeys
    rw [← takes_keyed, hbefore] at h
    have habsorbs := (Summary.absorbs initialisms).1 name (values.map Value.members) [members]
      (List.forall_mem_singleton.mpr h)
    refine (unsampled_eq_of_growsTo hgrows ?_).symm
    rw [hbefore, hafter]
    exact habsorbs.symm

/-- A member may be null where its field is optional, and a number smaller than others. -/
theorem unsampled_ofObjects_append_iff_of_two :
    let initialisms : Initialisms := ⟨["ID"]⟩
    let values : List Value :=
      [.object [("id", .integer (2 ^ 70)), ("Id", .array [.null])], .object [("id", .integer 1)]]
    let members : List (String × Value) := [("Id", .null), ("id", .integer 2)]
    values.all Value.isObject ∧ (∀ v ∈ values ++ [.object members], v.keysDistinct) ∧
      (ofObjects initialisms "Item" (values ++ [.object members])).result.unsampled =
        (ofObjects initialisms "Item" values).result.unsampled := by
  intro initialisms values members
  have hobjects : values.all Value.isObject := rfl
  have hkeys : ∀ v ∈ values ++ [.object members], v.keysDistinct := by decide
  have htakes : (ofObjects initialisms "Item" values).result.takes members := by
    cbv
  exact ⟨hobjects, hkeys,
    (unsampled_ofObjects_append_iff initialisms "Item" values members hobjects hkeys).mpr htakes⟩

end Record

end Exemplar
