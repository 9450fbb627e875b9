import Exemplar.Proofs.Candour
import Exemplar.Proofs.Identifiers
import Exemplar.Proofs.SummaryInference

/-!
# What every inferred root has

Generated code is only as good as the names and keys in the roots. Inference gives proper
identifiers to fields and proper names to the records inside a root, and no record has two fields
for one key. Roots that are put together by hand need not have any of this.
-/

namespace Exemplar

/-- A root that some document has under some name. No object of a document holds a key twice. -/
def Root.Inferred (root : Root) : Prop :=
  ∃ (initialisms : Initialisms) (name : String) (index : Nat) (d : Value)
    (described : Reported Root), d.keysDistinct ∧
      Root.ofDocument initialisms name index d = .ok described ∧ described.result = root

/-! Names -/

theorem Shape.Backed.name_eq {events : List Event} {record key name : String} {r : Record} :
    ∀ {a : Shape}, a.Backed events record key name → a.record? = some r → r.name = name
  | .struct inner, h, hr | .structSlice inner, h, hr => by
    obtain rfl : inner = r := Option.some.inj hr
    exact h
  | .slice element, h, hr => Shape.Backed.name_eq (a := element) h hr

/-- A record inside a record is held by a field of one of its records, unless it is the record
itself. -/
theorem Record.eq_or_held_of_mem_records {r inner : Record} (h : inner ∈ r.records) :
    inner = r ∨ ∃ outer ∈ r.records, ∃ f ∈ outer.fields, f.child? = some inner := by
  induction r using Record.induct generalizing inner with
  | hstep name fields hinside =>
    rcases Record.mem_records.mp h with rfl | ⟨f, hf, hinner⟩
    · exact Or.inl rfl
    · obtain ⟨r, hchild, hinner⟩ := Shape.mem_records.mp hinner
      have hwithin : ∀ outer ∈ r.records, outer ∈ Record.records ⟨name, fields⟩ :=
        fun outer houter => Record.mem_records.mpr
          (Or.inr ⟨f, hf, Shape.mem_records.mpr ⟨r, hchild, houter⟩⟩)
      rcases hinside f hf r hchild hinner with rfl | ⟨outer, houter, hheld⟩
      · exact Or.inr ⟨⟨name, fields⟩, Record.self_mem_records _, f, hf, hchild⟩
      · exact Or.inr ⟨outer, hwithin outer houter, hheld⟩

variable {initialisms : Initialisms} {events : List Event}

theorem Record.Accounted.proper_names {r : Record} (h : r.Accounted initialisms events)
    (hname : Identifier.Proper r.name) : ∀ inner ∈ r.records, Identifier.Proper inner.name := by
  intro inner hinner
  rcases Record.eq_or_held_of_mem_records hinner with rfl | ⟨outer, houter, f, hf, hheld⟩
  · exact hname
  · rw [(h outer houter f hf).shape.name_eq hheld]
    exact Identifier.proper_ofKey initialisms f.sourceKey

theorem Root.Accounted.proper_names {root : Root} (h : root.Accounted initialisms events)
    (hname : Identifier.Proper root.name) :
    ∀ r ∈ root.records, Identifier.Proper r.name := by
  cases root with
  | record r => exact Record.Accounted.proper_names h hname
  | slice name shape =>
    intro inner hinner
    obtain ⟨r, hchild, hinner⟩ := Shape.mem_records.mp hinner
    have hrecords : r.Accounted initialisms events := fun inner hinner =>
      h.inner inner (Shape.mem_records.mpr ⟨r, hchild, hinner⟩)
    have hown : Identifier.Proper r.name := by
      rw [Shape.Backed.name_eq (Shape.Accounted.backed h) hchild]
      exact hname.append (List.all_eq_true.mp rfl)
    exact hrecords.proper_names hown inner hinner

/-- Under a proper name, a root has records with proper names. -/
theorem Root.Inferred.proper_names {root : Root} (h : root.Inferred)
    (hname : Identifier.Proper root.name) : ∀ r ∈ root.records, Identifier.Proper r.name := by
  obtain ⟨initialisms, name, index, d, described, -, hdescribed, rfl⟩ := h
  exact (Root.accounted_ofDocument hdescribed).proper_names hname

theorem Root.Inferred.proper_identifiers {root : Root} (h : root.Inferred) :
    ∀ r ∈ root.records, ∀ f ∈ r.fields, Identifier.Proper f.identifier := by
  obtain ⟨initialisms, name, index, d, described, -, hdescribed, rfl⟩ := h
  intro r hr f hf
  obtain ⟨digits, hdigits, hidentifier⟩ :=
    ((Root.accounted_ofDocument hdescribed).of_mem_records r hr f hf).numbered
  rw [hidentifier]
  refine (Identifier.proper_ofKey initialisms f.sourceKey).append_digits ?_
  rwa [String.toList_ofList]

/-! Keys -/

/-- The keys of a record, one for each field. -/
def Record.sourceKeys (r : Record) : List String :=
  r.fields.map Field.sourceKey

theorem Record.sourceKeys_keyed (r : Record) : r.keyed.sourceKeys = r.sourceKeys := by
  rw [Record.keyed_eq_mk, Record.sourceKeys, Record.sourceKeys, List.map_map]
  exact List.map_congr_left fun f _ => f.keyed_sourceKey

theorem Shape.record?_keyed : ∀ a : Shape, a.keyed.record? = a.record?.map Record.keyed
  | .scalar _ | .struct _ | .structSlice _ | .anySlice | .any => rfl
  | .slice element => Shape.record?_keyed element

theorem Shape.records_keyed_of {a : Shape}
    (hinside : ∀ r, a.record? = some r → r.keyed.records = r.records.map Record.keyed) :
    a.keyed.records = a.records.map Record.keyed := by
  rw [a.records_of_record?, a.keyed.records_of_record?, a.record?_keyed]
  cases hchild : a.record? with
  | none => rfl
  | some r => exact hinside r hchild

/-- Forgetting the identifiers keeps the records. -/
theorem Record.records_keyed (r : Record) : r.keyed.records = r.records.map Record.keyed := by
  induction r using Record.induct with
  | hstep name fields hinside =>
    rw [Record.records_eq, Record.records_eq ⟨name, fields⟩, List.map_cons, List.map_flatMap,
      Record.keyed_eq_mk, List.flatMap_map]
    refine congrArg _ (List.flatMap_congr fun f hf => ?_)
    rw [Field.keyed_shape]
    exact Shape.records_keyed_of (hinside f hf)

theorem Shape.records_keyed (a : Shape) : a.keyed.records = a.records.map Record.keyed :=
  Shape.records_keyed_of fun r _ => r.records_keyed

/-- No record of the list has two fields for one key. -/
def KeysNodup (records : List Record) : Prop :=
  ∀ r ∈ records, r.sourceKeys.Nodup

namespace Summary

theorem records_sliceOf (a : Shape) : (sliceOf a).records = a.records := by
  cases a <;> rfl

/-- The record is a summary of some examples. -/
def IsRecord (r : Record) : Prop :=
  ∃ initialisms name examples, r = record initialisms name examples

/-- Each record inside a summary is itself one. -/
theorem isRecord (initialisms : Initialisms) :
    (∀ name examples, ∀ r ∈ (record initialisms name examples).records, IsRecord r) ∧
      (∀ name values, ∀ r ∈ (shape initialisms name values).records, IsRecord r) ∧
      ∀ name elements, ∀ r ∈ (slice initialisms name elements).records, IsRecord r := by
  have hnone : ∀ r ∈ [], IsRecord r := fun r hr => absurd hr List.not_mem_nil
  have hjoined : ∀ name arrays, (arrays.any (·.elements.isEmpty) = false →
      ∀ r ∈ (slice initialisms name (arrays.flatMap Value.elements)).records, IsRecord r) →
      ∀ r ∈ (joined initialisms name arrays).records, IsRecord r := by
    intro name arrays h
    rw [joined]
    split
    · exact hnone
    · rename_i hfull
      exact h (Bool.eq_false_of_not_eq_true hfull)
  apply induct initialisms
  · intro name examples hshapes
    refine Record.forall_mem_records.mpr ⟨⟨initialisms, name, examples, rfl⟩, ?_⟩
    rw [record_eq]
    intro f hf
    obtain ⟨key, -, rfl⟩ := List.mem_map.mp hf
    exact hshapes key
  · intro name values hrecord hslice
    rw [shape_eq]
    cases hf : form (concrete values) with
    | objects => exact hrecord hf
    | arrays => exact hjoined name _ (hslice hf)
    | _ => exact hnone
  · intro name elements hrecord hslice
    rw [slice_eq]
    cases hf : form elements with
    | objects => exact hrecord hf
    | arrays =>
      dsimp only
      rw [records_sliceOf]
      exact hjoined name _ (hslice hf)
    | _ => exact hnone

/-- A summary has one field for each key. -/
theorem IsRecord.keysNodup {r : Record} (h : IsRecord r) : r.sourceKeys.Nodup := by
  obtain ⟨initialisms, name, examples, rfl⟩ := h
  have hkeys : (record initialisms name examples).sourceKeys = Examples.keys examples := by
    rw [record_eq, Record.sourceKeys, List.map_map]
    exact List.map_id _
  rw [hkeys]
  exact Examples.nodup_keys examples

end Summary

/-- Each record of an inferred root is a summary, up to identifiers. -/
theorem Root.Inferred.isRecord_keyed {root : Root} (h : root.Inferred) :
    ∀ r ∈ root.records, Summary.IsRecord r.keyed := by
  obtain ⟨initialisms, name, index, d, described, hkeys, hdescribed, rfl⟩ := h
  obtain ⟨hrecord, -, hslice⟩ := Summary.isRecord initialisms
  cases d with
  | object members =>
    obtain rfl := Except.ok.inj hdescribed
    have hkeyed := Value.described initialisms (.object members) hkeys name
    refine List.forall_mem_map.mp ?_
    change ∀ r ∈ (Record.addMembers initialisms (.empty name) members).result.records.map _, _
    rw [← Record.records_keyed, hkeyed]
    exact hrecord name [members]
  | array elements =>
    have helements := (Value.keysDistinct_array elements).mp hkeys
    rw [ofDocument] at hdescribed
    cases hobjects : elements.all Value.isObject with
    | true =>
      rw [if_pos hobjects] at hdescribed
      obtain rfl := Except.ok.inj hdescribed
      have hkeyed := Record.keyed_ofObjects initialisms name hobjects helements
      refine List.forall_mem_map.mp ?_
      change ∀ r ∈ (Record.ofObjects initialisms name elements).result.records.map _, _
      rw [← Record.records_keyed, hkeyed]
      exact hrecord name (elements.map Value.members)
    | false =>
      rw [hobjects, if_neg Bool.false_ne_true] at hdescribed
      obtain rfl := Except.ok.inj hdescribed
      have hkeyed := Value.described initialisms (.array elements) hkeys name (name ++ "Item")
      refine List.forall_mem_map.mp ?_
      change ∀ r ∈ (Shape.ofElements initialisms name _ elements).result.records.map _, _
      rw [← Shape.records_keyed, hkeyed]
      exact hslice (name ++ "Item") elements
  | _ => contradiction

/-- No record of an inferred root has two fields for one key. -/
theorem Root.Inferred.keysNodup {root : Root} (h : root.Inferred) : KeysNodup root.records := by
  intro r hr
  rw [← Record.sourceKeys_keyed]
  exact (h.isRecord_keyed r hr).keysNodup

end Exemplar
