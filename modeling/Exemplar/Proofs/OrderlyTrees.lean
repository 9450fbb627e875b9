import Exemplar.Proofs.ObtainedRecords

/-!
# Inferred trees are in order

Generated code, the view of roots and the laws of merging rely on the form of the trees that
inference builds. No record has a key twice, the record that a field holds is named after its key,
and the elements of a slice have a shape of their own: not that of single objects, and not one that
takes anything. Merging keeps all of this, whatever is merged with whatever, since it compares
records by their fields and leaves the names of those inside alone.
-/

namespace Exemplar

variable {allowed : Initialisms → Prop}

/-- The record in a shape, if any, is named after a key, with initialisms that are allowed. -/
def Shape.NamedFor (allowed : Initialisms → Prop) (key : String) (a : Shape) : Prop :=
  ∀ r, a.record? = some r →
    ∃ initialisms, allowed initialisms ∧ r.name = Identifier.ofKey initialisms key

/-- The fields of a record have keys of their own, their records are named after these, and their
slices have elements with a common shape. -/
structure Record.Orderly (allowed : Initialisms → Prop) (r : Record) : Prop where
  keys : r.sourceKeys.Nodup
  names : r.Shaped (Shape.NamedFor allowed)
  slices : r.IsRegular

/-- The root of some document under a name, with initialisms that are allowed. No object of a
document holds a key twice. -/
def Root.InferredUnder (allowed : Initialisms → Prop) (name : String) (root : Root) : Prop :=
  ∃ (initialisms : Initialisms) (index : Nat) (d : Value) (described : Reported Root),
    allowed initialisms ∧ d.keysDistinct ∧
      Root.ofDocument initialisms name index d = .ok described ∧ described.result = root

/-- The records of inferred roots, what merging makes of them, and the records inside. -/
inductive Record.Derived (allowed : Initialisms → Prop) : Record → Prop where
  | inferred {name : String} {root : Root} {r : Record} (h : root.InferredUnder allowed name)
    (hr : r ∈ root.records) : Derived allowed r
  | merge {a b : Record} (ha : Derived allowed a) (hb : Derived allowed b) :
    Derived allowed (merge a b).result
  | inner {r inner : Record} (h : Derived allowed r) (hinner : inner ∈ r.records) :
    Derived allowed inner

/-- The records of a root are in order. Under a name, an array has elements with a common shape or
any elements, and the record of its elements is named after the array. -/
structure Root.Orderly (allowed : Initialisms → Prop) (name : String) (root : Root) : Prop where
  records : ∀ r ∈ root.records, r.Orderly allowed
  name_eq : root.name = name
  slice : ∀ own shape, root = .slice own shape →
    (shape = .anySlice ∨ ∃ element, shape = .slice element ∧ element.isElement) ∧
      ∀ r, shape.record? = some r → r.name = name ++ "Item"

/-! Merging -/

namespace Shape

/-- Shapes that agree hold records of one name. -/
theorem record?_of_similar {r : Record} : ∀ {a b : Shape}, a.similar b → a.record? = some r →
    ∃ s, b.record? = some s ∧ r.name = s.name
  | struct a, struct b, h, hr | structSlice a, structSlice b, h, hr => by
    obtain rfl : a = r := Option.some.inj hr
    exact ⟨b, rfl, of_decide_eq_true h⟩
  | slice a, slice b, h, hr => record?_of_similar (a := a) (b := b) h hr

theorem lasting_namedFor (allowed : Initialisms → Prop) : Lasting (NamedFor allowed) where
  any _ := fun r hr => by contradiction
  anySlice _ := fun r hr => by contradiction
  congr {key a b} h hb := by
    intro r hr
    obtain ⟨s, hs, hname⟩ := record?_of_similar h hr
    rw [hname]
    exact hb s hs

end Shape

/-- Merging keeps records in order. -/
theorem Record.orderly_merge {a b : Record} (ha : ∀ r ∈ a.records, r.Orderly allowed)
    (hb : ∀ r ∈ b.records, r.Orderly allowed) :
    ∀ r ∈ (merge a b).result.records, r.Orderly allowed := by
  have hkeys := stable_keys.merge a b (fun r hr => (ha r hr).keys) fun r hr => (hb r hr).keys
  have hnames := shaped_merge (Shape.lasting_namedFor allowed) a b (fun r hr => (ha r hr).names)
    fun r hr => (hb r hr).names
  have hslices := shaped_merge Shape.lasting_isRegular a b (fun r hr => (ha r hr).slices)
    fun r hr => (hb r hr).slices
  exact fun r hr => ⟨hkeys r hr, hnames r hr, hslices r hr⟩

/-! Inference -/

theorem Root.InferredUnder.inferred {name : String} {root : Root}
    (h : root.InferredUnder allowed name) : root.Inferred := by
  obtain ⟨initialisms, index, d, described, -, hkeys, hdescribed, hroot⟩ := h
  exact ⟨initialisms, name, index, d, described, hkeys, hdescribed, hroot⟩

theorem Root.InferredUnder.orderly_records {name : String} {root : Root}
    (h : root.InferredUnder allowed name) : ∀ r ∈ root.records, r.Orderly allowed := by
  have hinferred := h.inferred
  obtain ⟨initialisms, index, d, described, hallowed, hkeys, hdescribed, rfl⟩ := h
  intro r hr
  refine ⟨hinferred.keysNodup r hr, fun f hf inner hinner => ⟨initialisms, hallowed, ?_⟩, ?_⟩
  · exact ((Root.accounted_ofDocument hdescribed).of_mem_records r hr f hf).shape.name_eq hinner
  · exact Record.isRegular_keyed.mp (hinferred.isRecord_keyed r hr).isRegular

/-- Elements that do not all agree make an array of anything. -/
theorem Shape.result_ofJoinedElements (key : String) (joined : Option Shape) :
    (ofJoinedElements key joined).result = .anySlice ∨
      ∃ element, (ofJoinedElements key joined).result = .slice element := by
  cases joined with
  | none => exact Or.inl rfl
  | some shape =>
    cases shape with
    | anySlice => exact Or.inl rfl
    | _ => exact Or.inr ⟨_, rfl⟩

/-- Only an array of objects is described as such. -/
theorem Shape.result_ofElements (initialisms : Initialisms) (key name : String)
    {elements : List Value} (h : elements.all Value.isObject = false) :
    (ofElements initialisms key name elements).result = .anySlice ∨
      ∃ element, (ofElements initialisms key name elements).result = .slice element := by
  cases elements with
  | nil => contradiction
  | cons first rest =>
    rw [List.all_cons] at h
    rw [ofElements, h, if_neg Bool.false_ne_true, Reported.result_bind]
    cases (ofElement? initialisms key name first).result with
    | none => exact result_ofJoinedElements key none
    | some shape => exact result_ofJoinedElements key _

theorem Root.name_ofDocument {initialisms : Initialisms} {name : String} {index : Nat} {d : Value}
    {described : Reported Root} (h : ofDocument initialisms name index d = .ok described) :
    described.result.name = name := by
  have hinside : ∀ v : Value, v.Accounted initialisms := Value.accounted initialisms
  cases d with
  | object members =>
    obtain rfl := Except.ok.inj h
    exact (hinside (.object members) name).1
  | array elements =>
    rw [ofDocument] at h
    split at h
    · obtain rfl := Except.ok.inj h
      exact (Value.accounted_ofObjects (fun v (_ : v ∈ elements) => hinside v)
        (Gathering.accounted_start [] name)).1
    · obtain rfl := Except.ok.inj h
      rfl
  | _ => contradiction

/-- The elements of an array that is a root have a common shape, or none that is told. -/
theorem Root.elements_ofDocument {initialisms : Initialisms} {name own : String} {index : Nat}
    {d : Value} {described : Reported Root} {shape : Shape} (hkeys : d.keysDistinct)
    (h : ofDocument initialisms name index d = .ok described)
    (hslice : described.result = .slice own shape) :
    shape = .anySlice ∨ ∃ element, shape = .slice element ∧ element.isElement := by
  cases d with
  | object members =>
    obtain rfl := Except.ok.inj h
    contradiction
  | array elements =>
    rw [ofDocument] at h
    cases hobjects : elements.all Value.isObject with
    | true =>
      rw [if_pos hobjects] at h
      obtain rfl := Except.ok.inj h
      contradiction
    | false =>
      rw [hobjects, if_neg Bool.false_ne_true] at h
      obtain rfl := Except.ok.inj h
      obtain ⟨-, rfl⟩ := Root.slice.inj hslice
      have hregular :
          (Shape.ofElements initialisms name (name ++ "Item") elements).result.isRegular := by
        rw [← Shape.isRegular_keyed,
          (Value.array elements).described initialisms hkeys name (name ++ "Item")]
        exact Summary.isRegular_slice initialisms _ elements
      refine (Shape.result_ofElements initialisms name (name ++ "Item") hobjects).imp_right ?_
      rintro ⟨element, helement⟩
      rw [helement] at hregular
      exact ⟨element, helement, hregular⟩
  | _ => contradiction

theorem Root.InferredUnder.orderly {name : String} {root : Root}
    (h : root.InferredUnder allowed name) : root.Orderly allowed name := by
  have hrecords := h.orderly_records
  obtain ⟨initialisms, index, d, described, -, hkeys, hdescribed, rfl⟩ := h
  have hname := Root.name_ofDocument hdescribed
  refine ⟨hrecords, hname, fun own shape hslice =>
    ⟨Root.elements_ofDocument hkeys hdescribed hslice, fun r hr => ?_⟩⟩
  have haccounted := Root.accounted_ofDocument hdescribed
  rw [hslice] at haccounted hname
  obtain rfl : own = name := hname
  exact (Shape.Accounted.backed haccounted).name_eq hr

theorem Record.Derived.orderly {r : Record} (h : Derived allowed r) :
    ∀ inner ∈ r.records, inner.Orderly allowed := by
  induction h with
  | inferred h hr =>
    exact fun inner hinner => h.orderly_records inner (Root.records_trans hr hinner)
  | merge _ _ ha hb => exact orderly_merge ha hb
  | inner _ hinner ih => exact fun r hr => ih r (records_trans hinner hr)

/-- The roots that are inferred and the records that are merged from theirs are in order at every
depth. -/
theorem orderly_of_inference (allowed : Initialisms → Prop) :
    (∀ name root, Root.InferredUnder allowed name root → root.Orderly allowed name) ∧
      ∀ r, Record.Derived allowed r → ∀ inner ∈ r.records, inner.Orderly allowed :=
  ⟨fun _ _ h => h.orderly, fun _ h => h.orderly⟩

/-- Arrays of arrays of objects, and what merging makes of the records inside. -/
theorem orderly_of_inference_of_arrays :
    let place : Value := .object [("geo point", .object [("id", .integer 1)])]
    let route : Value := .object [("legs", .array [.array [place], .array [place, place]])]
    let d : Value := .array [.array [place, route], .array [route]]
    let allowed : Initialisms → Prop := fun initialisms => initialisms = Initialisms.standard
    ∃ described, Root.ofDocument Initialisms.standard "Route" 0 d = .ok described ∧
      described.result.InferredUnder allowed "Route" ∧
      described.result.records.map Record.name =
        ["RouteItem", "GeoPoint", "Legs", "GeoPoint"] ∧
      described.result.Orderly allowed "Route" ∧
      ∀ a ∈ described.result.records, ∀ b ∈ described.result.records,
        ∀ inner ∈ (Record.merge a b).result.records, inner.Orderly allowed := by
  intro place route d allowed
  obtain ⟨described, hdescribed⟩ :
    ∃ described, Root.ofDocument Initialisms.standard "Route" 0 d = .ok described := ⟨_, rfl⟩
  have hroot : described.result.InferredUnder allowed "Route" :=
    ⟨Initialisms.standard, 0, d, described, rfl, by decide, hdescribed, rfl⟩
  have hlaw := orderly_of_inference allowed
  refine ⟨described, hdescribed, hroot, ?_, hlaw.1 _ _ hroot, fun a ha b hb =>
    hlaw.2 _ (.merge (.inferred hroot ha) (.inferred hroot hb))⟩
  obtain rfl := Except.ok.inj hdescribed
  decide +kernel

end Exemplar
