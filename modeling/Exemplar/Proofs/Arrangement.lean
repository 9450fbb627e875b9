import Mathlib.Data.List.Perm.Basic
import Exemplar.Proofs.Records
import Exemplar.Rendering

/-!
# The order of fields in the generated code

Fields are declared in the order of the records, or sorted if that is asked for. Sorting changes the
order of the fields, and so the order of the records inside them, and nothing else.
-/

namespace Exemplar

/-- The roots with their fields in the order of the generated code. -/
def RenderOptions.arrange (options : RenderOptions) (roots : List Root) : List Root :=
  if options.sortFields then roots.map Root.sorted else roots

/-- A record with its fields in the order of the generated code. -/
def RenderOptions.arrangeRecord (options : RenderOptions) (r : Record) : Record :=
  if options.sortFields then r.sorted else r

theorem Shape.record?_sorted : ∀ a : Shape, a.sorted.record? = a.record?.map Record.sorted
  | .scalar _ | .struct _ | .structSlice _ | .anySlice | .any => rfl
  | .slice element => Shape.record?_sorted element

theorem Field.shape_sortedShape (f : Field) : (Field.sortedShape f).shape = f.shape.sorted := by
  cases f; rfl

theorem Field.sourceKey_sortedShape (f : Field) :
    (Field.sortedShape f).sourceKey = f.sourceKey := by
  cases f; rfl

theorem Field.identifier_sortedShape (f : Field) :
    (Field.sortedShape f).identifier = f.identifier := by
  cases f; rfl

theorem Field.sortedShapes_eq_map (fields : List Field) :
    Field.sortedShapes fields = fields.map Field.sortedShape := by
  induction fields with
  | nil => rfl
  | cons f fields ih => rw [Field.sortedShapes, ih, List.map_cons]

theorem Record.name_sorted (r : Record) : r.sorted.name = r.name := by
  cases r; rfl

/-- The fields of a sorted record are those of the record, with sorted shapes. -/
theorem Record.fields_sorted_perm (r : Record) :
    r.sorted.fields.Perm (r.fields.map Field.sortedShape) := by
  cases r with
  | mk name fields =>
    rw [Record.sorted, Field.sortedShapes_eq_map, Field.sort]
    exact List.mergeSort_perm _ _

theorem Field.map_map_sortedShape {α : Type} {read : Field → α}
    (hread : ∀ f, read (Field.sortedShape f) = read f) (fields : List Field) :
    (fields.map Field.sortedShape).map read = fields.map read := by
  rw [List.map_map]
  exact List.map_congr_left fun f _ => hread f

/-- What is read off the fields of a sorted record is what is read off those of the record, unless
it depends on the order inside their shapes. -/
theorem Record.map_fields_sorted_perm {α : Type} {read : Field → α}
    (hread : ∀ f, read (Field.sortedShape f) = read f) (r : Record) :
    (r.sorted.fields.map read).Perm (r.fields.map read) := by
  have hperm := r.fields_sorted_perm.map read
  rwa [Field.map_map_sortedShape hread] at hperm

theorem Record.identifiers_sorted_perm (r : Record) : r.sorted.identifiers.Perm r.identifiers :=
  r.map_fields_sorted_perm Field.identifier_sortedShape

theorem Shape.records_sorted_perm {a : Shape}
    (hinside : ∀ r, a.record? = some r → r.sorted.records.Perm (r.records.map Record.sorted)) :
    a.sorted.records.Perm (a.records.map Record.sorted) := by
  rw [a.records_of_record?, a.sorted.records_of_record?, a.record?_sorted]
  cases hchild : a.record? with
  | none => exact List.Perm.nil
  | some r => exact hinside r hchild

/-- The records of a sorted record are those of the record, each of them sorted. -/
theorem Record.records_sorted_perm (r : Record) :
    r.sorted.records.Perm (r.records.map Record.sorted) := by
  induction r using Record.induct with
  | hstep name fields hinside =>
    have hfields := Record.fields_sorted_perm ⟨name, fields⟩
    have hshapes : ∀ f ∈ fields,
        (Field.sortedShape f).shape.records.Perm (f.shape.records.map Record.sorted) := by
      intro f hf
      rw [Field.shape_sortedShape]
      exact Shape.records_sorted_perm (hinside f hf)
    rw [Record.records_eq, Record.records_eq ⟨name, fields⟩, List.map_cons, List.map_flatMap]
    apply List.Perm.cons
    refine (hfields.flatMap_right _).trans ?_
    rw [List.flatMap_map]
    exact List.Perm.flatMap_left fields hshapes

theorem Root.name_sorted (root : Root) : root.sorted.name = root.name := by
  cases root with
  | record r => exact r.name_sorted
  | slice name shape => rfl

theorem Root.records_sorted_perm (root : Root) :
    root.sorted.records.Perm (root.records.map Record.sorted) := by
  cases root with
  | record r => exact r.records_sorted_perm
  | slice name shape => exact Shape.records_sorted_perm fun r _ => r.records_sorted_perm

/-- The records are the same in every order of the fields. -/
theorem RenderOptions.records_arrange_perm (options : RenderOptions) (roots : List Root) :
    ((options.arrange roots).flatMap Root.records).Perm
      ((roots.flatMap Root.records).map options.arrangeRecord) := by
  cases hsort : options.sortFields with
  | false =>
    have harrange : options.arrangeRecord = id := by
      funext r
      simp [RenderOptions.arrangeRecord, hsort]
    simp [RenderOptions.arrange, hsort, harrange]
  | true =>
    have harrange : options.arrangeRecord = Record.sorted := by
      funext r
      simp [RenderOptions.arrangeRecord, hsort]
    rw [RenderOptions.arrange, hsort, if_pos rfl, harrange, List.flatMap_map, List.map_flatMap]
    exact List.Perm.flatMap_left roots fun root _ => root.records_sorted_perm

/-- What sorting keeps holds of all records in the order of the generated code. -/
theorem RenderOptions.forall_mem_arrange {P : Record → Prop} (hsorted : ∀ r, P r → P r.sorted)
    (options : RenderOptions) {roots : List Root} (h : ∀ root ∈ roots, ∀ r ∈ root.records, P r) :
    ∀ r ∈ (options.arrange roots).flatMap Root.records, P r := by
  intro r hr
  obtain ⟨s, hs, rfl⟩ :=
    List.mem_map.mp ((options.records_arrange_perm roots).mem_iff.mp hr)
  obtain ⟨root, hroot, hs⟩ := List.mem_flatMap.mp hs
  have hown := h root hroot s hs
  rw [RenderOptions.arrangeRecord]
  split
  · exact hsorted s hown
  · exact hown

end Exemplar
