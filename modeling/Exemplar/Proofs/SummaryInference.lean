import Exemplar.Proofs.SummaryMerge

/-!
# Inference finds the summary

Inference walks through values one after another and merges what it has so far with what comes
next. Up to identifiers the result is the summary, which looks at all values at once. The proof
goes down the tree of a value; at each level the steps over members, elements and examples are
followed one by one.
-/

namespace Exemplar

namespace Summary

variable {initialisms : Initialisms}

/-- Summaries have no identifiers. -/
theorem keyed_self (initialisms : Initialisms) :
    (∀ name examples, (record initialisms name examples).keyed =
        record initialisms name examples) ∧
      (∀ name values, (shape initialisms name values).keyed = shape initialisms name values) ∧
      ∀ name elements, (slice initialisms name elements).keyed =
        slice initialisms name elements := by
  apply induct initialisms
  · intro name examples ih
    rw [record_eq, Record.keyed_eq_mk, List.map_map]
    refine congrArg _ (List.map_congr_left fun key _ => ?_)
    rw [Function.comp_apply, Field.keyed_eq_mk]
    simp only [field, ih key]
  · intro name values hrecord hslice
    rw [shape_eq]
    cases hf : form (concrete values) with
    | objects => exact congrArg Shape.struct (hrecord hf)
    | arrays =>
      dsimp only
      rw [joined]
      cases hempty : (concrete values).any (·.elements.isEmpty) with
      | true => rfl
      | false => exact hslice hf hempty
    | _ => rfl
  · intro name elements hrecord hslice
    rw [slice_eq]
    cases hf : form elements with
    | objects => exact congrArg Shape.structSlice (hrecord hf)
    | arrays =>
      dsimp only
      rw [joined]
      cases hempty : elements.any (·.elements.isEmpty) with
      | true => rfl
      | false =>
        rw [if_neg Bool.false_ne_true, keyed_sliceOf, hslice hf hempty]
    | _ => rfl

theorem slice_append_of_anySlice {name : String} {es : List Value} (fs : List Value)
    (hne : es ≠ []) (h : slice initialisms name es = .anySlice) :
    slice initialisms name (es ++ fs) = .anySlice := by
  by_cases hfs : fs = []
  · rw [hfs, List.append_nil, h]
  · have hkeyed := (keyed_self initialisms).2.2 name fs
    have hjoin := (merges initialisms).2.2 name es hne fs .anySlice
      (slice initialisms name fs) hfs h.symm hkeyed
    rw [Shape.covering_anySlice_left _ (isSlice_slice initialisms name fs)] at hjoin
    exact hjoin.symm

/-- An object among elements that are not all objects. -/
theorem slice_of_object_mem {name : String} {elements : List Value} {v : Value}
    (hv : v ∈ elements) (hobject : v.isObject) (hall : elements.all Value.isObject = false) :
    slice initialisms name elements = .anySlice := by
  have hne : elements ≠ [] := List.ne_nil_of_mem hv
  have hkind : kind? elements = none := by
    cases hk : kind? elements with
    | none => rfl
    | some kind =>
      obtain ⟨k, hk', -⟩ := (kind?_eq_some_iff.mp hk).2 v hv
      cases v <;> contradiction
  have harray : elements.all Value.isArray = false := by
    refine List.all_eq_false.mpr ⟨v, hv, ?_⟩
    cases v <;> first | exact Bool.false_ne_true | contradiction
  rw [slice_eq, form_of_ne_nil hne, hkind, hall, harray]
  rfl

end Summary

/-- The shape of an array with elements of two shapes. -/
theorem Shape.covering_sliceOf_elements (m : RecordMerge) (a b : Shape) :
    covering m (Summary.sliceOf a) (Summary.sliceOf b) =
      match elementJoin? m a b with
      | some joined => Summary.sliceOf joined.result
      | none => .anySlice := by
  cases a <;> cases b <;>
    simp only [covering, join?, elementJoin?, Summary.sliceOf, isSlice] <;> try rfl
  case scalar.scalar j k => cases j <;> cases k <;> rfl
  case slice.slice a b => cases elementJoin? m a b <;> rfl

namespace Value

/-- What inference finds for the inside of a value is its summary. -/
def Described (initialisms : Initialisms) : Value → Prop
  | .object members => ∀ name,
    (Record.addMembers initialisms (Record.empty name) members).result.keyed =
      Summary.record initialisms name [members]
  | .array elements => ∀ key name,
    (Shape.ofElements initialisms key name elements).result.keyed =
      Summary.slice initialisms name elements
  | _ => True

variable {initialisms : Initialisms}

open Summary in
/-- The shape of a value is that of the key whose only value it is. -/
theorem Described.ofValue {v : Value} (h : v.Described initialisms) (key name : String) :
    (Shape.ofValue initialisms key name v).result.keyed = shape initialisms name [v] := by
  rw [shape_eq]
  cases v with
  | object members =>
    have hform : form (concrete [object members]) = .objects := rfl
    rw [hform, Shape.ofValue, Reported.result_map, Shape.keyed, h name]
    rfl
  | array elements =>
    have hform : form (concrete [array elements]) = .arrays := rfl
    rw [hform, Shape.ofValue, h key name]
    exact (joined_singleton initialisms name elements).symm
  | integer n =>
    have hform : form (concrete [integer n]) =
        .scalars (if fitsInt64 n then .int64 else .bigInteger) := form_singleton rfl
    rw [hform]
    rfl
  | _ => rfl

open Summary in
/-- The shape of an element stands for that of an array of it alone. -/
theorem Described.ofElement? {v : Value} (h : v.Described initialisms) (key name : String)
    (hobject : v.isObject = false) :
    ∃ a, (Shape.ofElement? initialisms key name v).result = some a ∧
      (sliceOf a).keyed = slice initialisms name [v] := by
  have hscalar : ∀ kind, v.scalarKind? = some kind →
      Shape.slice (.scalar kind) = slice initialisms name [v] := by
    intro kind hk
    rw [slice_eq, form_singleton hk]
  cases v with
  | object members => contradiction
  | array elements =>
    have hform : form [array elements] = .arrays := rfl
    refine ⟨_, rfl, ?_⟩
    rw [keyed_sliceOf, h key name, slice_eq initialisms name [array elements], hform]
    exact congrArg sliceOf (joined_singleton initialisms name elements).symm
  | _ => exact ⟨_, rfl, hscalar _ rfl⟩

open Summary in
/-- The elements after those that have been joined so far. -/
theorem ofJoinedElements_joinElements (key name : String) {a : Shape} {joined rest : List Value}
    (ha : (sliceOf a).keyed = slice initialisms name joined) (hne : joined ≠ [])
    (hobject : (joined ++ rest).all Value.isObject = false)
    (hrest : ∀ v ∈ rest, v.Described initialisms) :
    (Shape.ofJoinedElements key
      (Shape.joinElements initialisms key name a rest).result).result.keyed =
        slice initialisms name (joined ++ rest) := by
  induction rest generalizing a joined with
  | nil =>
    rw [List.append_nil, ← ha, Shape.joinElements, Reported.result_pure]
    cases a <;> rfl
  | cons v rest ih =>
    obtain ⟨hv, hrest⟩ := List.forall_mem_cons.mp hrest
    rw [Shape.joinElements, Reported.result_bind]
    cases hvo : v.isObject with
    | true =>
      have hmem : v ∈ joined ++ v :: rest := List.mem_append_right _ List.mem_cons_self
      rw [slice_of_object_mem hmem hvo hobject]
      cases v <;> first | rfl | contradiction
    | false =>
      obtain ⟨b, hb, hb'⟩ := hv.ofElement? key name hvo
      rw [hb]
      have hmerged := (merges initialisms).2.2 name joined hne [v] (sliceOf a) (sliceOf b)
        (List.cons_ne_nil _ _) ha hb'
      rw [Shape.covering_sliceOf_elements] at hmerged
      have happend : joined ++ v :: rest = (joined ++ [v]) ++ rest := by simp
      cases hjoin : a.elementJoin? Record.merge b with
      | none =>
        rw [hjoin] at hmerged
        rw [happend, slice_append_of_anySlice rest (by simp) hmerged.symm]
        dsimp only
        rw [hjoin]
        rfl
      | some c =>
        rw [hjoin] at hmerged
        rw [happend] at hobject ⊢
        dsimp only
        rw [hjoin]
        exact ih hmerged (by simp) hobject hrest

/-- Taking in objects one after another. -/
theorem gathered_ofObjects {name : String} {groups : List (List (List (String × Value)))}
    {g : Gathering} (h : Summary.Gathered initialisms name groups g) {values : List Value}
    (hobjects : values.all Value.isObject) (hvalues : ∀ v ∈ values, v.Described initialisms) :
    Summary.Gathered initialisms name (groups ++ values.map fun v => [v.members])
      (Gathering.ofObjects initialisms g values).result := by
  induction values generalizing groups g with
  | nil =>
    rw [List.map_nil, List.append_nil]
    exact h
  | cons v values ih =>
    rw [List.all_cons, Bool.and_eq_true] at hobjects
    obtain ⟨hv, hrest⟩ := List.forall_mem_cons.mp hvalues
    obtain ⟨members, rfl⟩ : ∃ members, v = object members :=
      ⟨v.members, (object_members hobjects.1).symm⟩
    have hstep := h.absorb (m := Record.merge) (hv g.record.name) fun key _ _ a b ha hb =>
      (Summary.merges initialisms).2.1 _ _ _ a b ha hb
    have hih := ih hstep hobjects.2 hrest
    rw [List.append_assoc] at hih
    exact hih

theorem keyed_finish_ofObjects (name : String) {values : List Value}
    (hobjects : values.all Value.isObject) (hvalues : ∀ v ∈ values, v.Described initialisms) :
    (Gathering.ofObjects initialisms (Gathering.start name) values).result.finish.keyed =
      Summary.record initialisms name (values.map Value.members) := by
  have hgathered := gathered_ofObjects (Summary.gathered_start name) hobjects hvalues
  rw [hgathered.keyed_finish (by simp), List.nil_append]
  congr 1
  rw [← List.flatMap_def]
  exact List.map_eq_flatMap.symm

open Summary in
theorem described_array {elements : List Value}
    (h : ∀ v ∈ elements, v.Described initialisms) : (array elements).Described initialisms := by
  intro key name
  cases elements with
  | nil =>
    rw [slice_eq]
    rfl
  | cons first rest =>
    rw [Shape.ofElements]
    cases hobjects : (first :: rest).all Value.isObject with
    | true =>
      have hform : form (first :: rest) = .objects :=
        form_eq_objects_iff.mpr ⟨List.cons_ne_nil _ _, hobjects⟩
      rw [← List.all_cons, if_pos hobjects, slice_eq, hform]
      exact congrArg Shape.structSlice (keyed_finish_ofObjects name hobjects h)
    | false =>
      obtain ⟨hfirst, hrest⟩ := List.forall_mem_cons.mp h
      rw [← List.all_cons, hobjects, if_neg Bool.false_ne_true, Reported.result_bind]
      cases hfo : first.isObject with
      | true =>
        rw [slice_of_object_mem List.mem_cons_self hfo hobjects]
        cases first <;> first | rfl | contradiction
      | false =>
        obtain ⟨a, ha, ha'⟩ := hfirst.ofElement? key name hfo
        rw [ha]
        exact ofJoinedElements_joinElements key name ha' (List.cons_ne_nil _ _) hobjects hrest

/-- The field of a single example. -/
theorem fields_addMembers {members : List (String × Value)} {r : Record}
    (h : ∀ m ∈ members, m.2.Described initialisms) :
    (Record.addMembers initialisms r members).result.keyed =
      ⟨r.name, r.fields.map Field.keyed ++ members.map fun m =>
        ⟨m.1, "", Summary.shape initialisms (Identifier.ofKey initialisms m.1) [m.2], false,
          m.2.sample?⟩⟩ := by
  induction members generalizing r with
  | nil =>
    rw [List.map_nil, List.append_nil]
    exact Record.keyed_eq_mk r
  | cons m members ih =>
    obtain ⟨hm, hrest⟩ := List.forall_mem_cons.mp h
    obtain ⟨key, v⟩ := m
    rw [Record.addMembers, Reported.result_bind, Reported.result_bind, ih hrest,
      Record.result_addReporting, Record.add, List.map_append, List.map_singleton,
      Record.keyed_renamed, Field.keyed, hm.ofValue, List.append_assoc]
    rfl

theorem described_object {members : List (String × Value)}
    (hnodup : (members.map Prod.fst).Nodup) (h : ∀ m ∈ members, m.2.Described initialisms) :
    (object members).Described initialisms := by
  intro name
  rw [fields_addMembers h, Summary.record_eq, Examples.keys_singleton hnodup, List.map_map]
  refine congrArg _ (List.map_congr_left fun m hm => ?_)
  have hlookup := Examples.lookup_of_mem hnodup hm
  have hobserved : Examples.observed m.1 [members] = [m.2] := by
    rw [Examples.observed, List.filterMap_cons_some hlookup, List.filterMap_nil]
  have hlacks : Examples.lacks m.1 [members] = false := by
    rw [Examples.lacks, List.any_cons, hlookup]
    rfl
  rw [Function.comp_apply, Summary.field, hobserved, hlacks]
  congr 1
  · cases m.2 <;> rfl
  · rw [Summary.sample?, List.findSome?_singleton]

/-- Inference finds the summary inside every value. -/
theorem described (initialisms : Initialisms) (v : Value) (h : v.keysDistinct) :
    v.Described initialisms := by
  match v with
  | object members =>
    obtain ⟨hnodup, hmembers⟩ := (keysDistinct_object members).mp h
    refine described_object hnodup fun m hm => ?_
    have hlt : m.2.weight < (object members).weight :=
      Nat.lt_succ_of_le (weight_le_memberWeight hm)
    exact described initialisms m.2 (hmembers m hm)
  | array elements =>
    have helements := (keysDistinct_array elements).mp h
    refine described_array fun w hw => ?_
    have hlt : w.weight < (array elements).weight :=
      Nat.lt_succ_of_le (weight_le_totalWeight hw)
    exact described initialisms w (helements w hw)
  | null | boolean _ | integer _ | float _ | decimal _ | string _ => trivial
termination_by v.weight

end Value

namespace Record

theorem keyed_ofObjects (initialisms : Initialisms) (name : String) {values : List Value}
    (hobjects : values.all Value.isObject) (hkeys : ∀ v ∈ values, v.keysDistinct) :
    (ofObjects initialisms name values).result.keyed =
      Summary.record initialisms name (values.map Value.members) :=
  Value.keyed_finish_ofObjects name hobjects fun v hv => v.described initialisms (hkeys v hv)

private theorem map_members_map_object (examples : List (List (String × Value))) :
    (examples.map Value.object).map Value.members = examples := by
  rw [List.map_map]
  exact List.map_id examples

theorem all_isObject_map_object (examples : List (List (String × Value))) :
    (examples.map Value.object).all Value.isObject := by
  rw [List.all_map]
  exact List.all_eq_true.mpr fun _ _ => rfl

/-- The record of examples is their summary. -/
theorem ofObjects_eq_summary (initialisms : Initialisms) (name : String)
    (examples : List (List (String × Value)))
    (hkeys : ∀ members ∈ examples, (Value.object members).keysDistinct) :
    (ofObjects initialisms name (examples.map Value.object)).result.keyed =
      Summary.record initialisms name examples := by
  have hsummary := keyed_ofObjects initialisms name (all_isObject_map_object examples)
    (by simpa using hkeys)
  rw [hsummary, map_members_map_object]

theorem ofObjects_eq_summary_of_two :
    let examples : List (List (String × Value)) :=
      [[("id", .integer 1), ("tags", .array [])], [("id", .null), ("tags", .array [.string "a"])]]
    (∀ members ∈ examples, (Value.object members).keysDistinct) ∧
      (ofObjects Initialisms.standard "Item" (examples.map Value.object)).result.keyed =
        Summary.record Initialisms.standard "Item" examples := by
  intro examples
  have hkeys : ∀ members ∈ examples, (Value.object members).keysDistinct := by decide
  exact ⟨hkeys, ofObjects_eq_summary Initialisms.standard "Item" examples hkeys⟩

/-- Merging the records of two groups of examples gives the record of all of them, whatever the
groups are. -/
theorem merge_ofObjects (initialisms : Initialisms) (name : String)
    (xs ys : List (List (String × Value))) (hx : xs ≠ []) (hy : ys ≠ [])
    (hkeys : ∀ members ∈ xs ++ ys, (Value.object members).keysDistinct) :
    (merge (ofObjects initialisms name (xs.map Value.object)).result
        (ofObjects initialisms name (ys.map Value.object)).result).result.keyed =
      (ofObjects initialisms name ((xs ++ ys).map Value.object)).result.keyed := by
  have hsummary : ∀ zs : List (List (String × Value)),
      (∀ members ∈ zs, (Value.object members).keysDistinct) →
      (ofObjects initialisms name (zs.map Value.object)).result.keyed =
        Summary.record initialisms name zs := by
    intro zs hzs
    rw [keyed_ofObjects initialisms name (all_isObject_map_object zs) (by simpa using hzs),
      map_members_map_object]
  obtain ⟨hkeysX, hkeysY⟩ := List.forall_mem_append.mp hkeys
  rw [hsummary (xs ++ ys) hkeys]
  exact (Summary.merges initialisms).1 name xs hx ys _ _ hy (hsummary xs hkeysX)
    (hsummary ys hkeysY)

theorem merge_ofObjects_of_two :
    let xs : List (List (String × Value)) := [[("id", .integer 1)], [("id", .integer 2)]]
    let ys : List (List (String × Value)) := [[("id", .null), ("name", .string "a")]]
    xs ≠ [] ∧ ys ≠ [] ∧ (∀ members ∈ xs ++ ys, (Value.object members).keysDistinct) ∧
      (merge (ofObjects Initialisms.standard "Item" (xs.map Value.object)).result
          (ofObjects Initialisms.standard "Item" (ys.map Value.object)).result).result.keyed =
        (ofObjects Initialisms.standard "Item" ((xs ++ ys).map Value.object)).result.keyed := by
  intro xs ys
  have hx : xs ≠ [] := by simp [xs]
  have hy : ys ≠ [] := by simp [ys]
  have hkeys : ∀ members ∈ xs ++ ys, (Value.object members).keysDistinct := by decide
  exact ⟨hx, hy, hkeys, merge_ofObjects Initialisms.standard "Item" xs ys hx hy hkeys⟩

end Record

end Exemplar
