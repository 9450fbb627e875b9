import Exemplar.Shape.Sorted

/-!
# The records inside a root

A root is a tree of records. `Root.records` lists them, each before those inside it, and those
inside one record in the order of its fields. Statements about every depth of a root are statements
about the members of this list, so they need no recursion of their own.
-/

namespace Exemplar

mutual

/-- The records inside a shape. -/
def Shape.records : Shape → List Record
  | .struct record | .structSlice record => record.records
  | .slice element => element.records
  | .scalar _ | .anySlice | .any => []

/-- A record and the records inside it. -/
def Record.records : Record → List Record
  | ⟨name, fields⟩ => ⟨name, fields⟩ :: Field.allRecords fields

/-- The records inside fields. -/
def Field.allRecords : List Field → List Record
  | [] => []
  | field :: fields => field.records ++ Field.allRecords fields

def Field.records : Field → List Record
  | ⟨_, _, shape, _, _⟩ => shape.records

end

/-- All records of a root, at every depth. -/
def Root.records : Root → List Record
  | .record r => r.records
  | .slice _ shape => shape.records

theorem Field.records_eq (f : Field) : f.records = f.shape.records := by
  cases f; rfl

theorem Field.allRecords_eq (fields : List Field) :
    Field.allRecords fields = fields.flatMap fun f => f.shape.records := by
  induction fields with
  | nil => rfl
  | cons f fields ih => rw [Field.allRecords, ih, Field.records_eq, List.flatMap_cons]

theorem Record.records_eq (r : Record) :
    r.records = r :: r.fields.flatMap fun f => f.shape.records := by
  cases r with
  | mk name fields => rw [Record.records, Field.allRecords_eq]

theorem Record.mem_records {r inner : Record} :
    inner ∈ r.records ↔ inner = r ∨ ∃ f ∈ r.fields, inner ∈ f.shape.records := by
  rw [Record.records_eq, List.mem_cons, List.mem_flatMap]

theorem Record.self_mem_records (r : Record) : r ∈ r.records :=
  Record.mem_records.mpr (Or.inl rfl)

/-- A shape holds at most one record directly; all others are inside that one. -/
theorem Shape.records_of_record? (a : Shape) :
    a.records = a.record?.elim [] Record.records := by
  fun_induction Shape.record? a with
  | case1 => rfl
  | case2 => rfl
  | case3 element ih => exact ih
  | case4 a hstruct hstructSlice hslice =>
    cases a with
    | struct r => exact absurd rfl (hstruct r)
    | structSlice r => exact absurd rfl (hstructSlice r)
    | slice element => exact absurd rfl (hslice element)
    | _ => rfl

theorem Shape.records_eq {a : Shape} {r : Record} (h : a.record? = some r) :
    a.records = r.records := by
  rw [a.records_of_record?, h, Option.elim_some]

theorem Shape.mem_records {a : Shape} {inner : Record} :
    inner ∈ a.records ↔ ∃ r, a.record? = some r ∧ inner ∈ r.records := by
  rw [a.records_of_record?]
  cases a.record? with
  | none => simp
  | some r => simp

/-- What holds of all records of a record holds of it, and of all records inside its fields. -/
theorem Record.forall_mem_records {r : Record} {P : Record → Prop} :
    (∀ inner ∈ r.records, P inner) ↔ P r ∧ ∀ f ∈ r.fields, ∀ inner ∈ f.shape.records, P inner := by
  constructor
  · intro h
    have hinside : ∀ f ∈ r.fields, ∀ inner ∈ f.shape.records, P inner := fun f hf inner hinner =>
      h inner (Record.mem_records.mpr (Or.inr ⟨f, hf, hinner⟩))
    exact ⟨h r r.self_mem_records, hinside⟩
  · rintro ⟨hr, hinside⟩ inner hinner
    rcases Record.mem_records.mp hinner with rfl | ⟨f, hf, hin⟩
    · exact hr
    · exact hinside f hf inner hin

theorem Shape.sizeOf_record? {r : Record} : ∀ {a : Shape}, a.record? = some r → sizeOf r < sizeOf a
  | .struct record, h | .structSlice record, h => by
    obtain rfl := Option.some.inj h
    simp
  | .slice element, h => by
    have := Shape.sizeOf_record? (a := element) h
    simp only [Shape.slice.sizeOf_spec]
    omega

/-- Induction on records: a record may be taken to have what the records of its fields have. -/
theorem Record.induct {P : Record → Prop}
    (hstep : ∀ name fields, (∀ f ∈ fields, ∀ inner, f.child? = some inner → P inner) →
      P ⟨name, fields⟩) (r : Record) : P r := by
  cases r with
  | mk name fields =>
    refine hstep name fields fun f hf inner hinner => ?_
    have hshape : sizeOf inner < sizeOf f.shape := Shape.sizeOf_record? hinner
    have hfield : sizeOf f.shape < sizeOf f := by
      cases f
      simp only [Field.mk.sizeOf_spec]
      omega
    have hfields : sizeOf f < sizeOf fields := List.sizeOf_lt_of_mem hf
    exact Record.induct hstep inner
termination_by sizeOf r

/-- The records inside a record inside are inside. -/
theorem Record.records_trans {r inner innermost : Record} (hinner : inner ∈ r.records)
    (hinnermost : innermost ∈ inner.records) : innermost ∈ r.records := by
  induction r using Record.induct with
  | hstep name fields ih =>
    rcases Record.mem_records.mp hinner with rfl | ⟨f, hf, hin⟩
    · exact hinnermost
    · obtain ⟨r, hchild, hin⟩ := Shape.mem_records.mp hin
      exact Record.mem_records.mpr
        (Or.inr ⟨f, hf, Shape.mem_records.mpr ⟨r, hchild, ih f hf r hchild hin⟩⟩)

theorem Root.records_trans {root : Root} {inner innermost : Record}
    (hinner : inner ∈ root.records) (hinnermost : innermost ∈ inner.records) :
    innermost ∈ root.records := by
  cases root with
  | record r => exact Record.records_trans hinner hinnermost
  | slice name shape =>
    obtain ⟨r, hr, hin⟩ := Shape.mem_records.mp hinner
    exact Shape.mem_records.mpr ⟨r, hr, Record.records_trans hin hinnermost⟩

end Exemplar
