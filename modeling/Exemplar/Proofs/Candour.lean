import Exemplar.Proofs.AccountsInference
import Exemplar.Proofs.Alarms

/-!
# Inference is candid

Whatever the root of a document does not say about the data was reported, under the names that the
root itself uses; and where the root says everything, no loss was reported. The events are those of
the whole run, so an event may also concern a record that was given up later on. What is not shown
is that every event still concerns a field of the root.
-/

namespace Exemplar

/-- A shape without the slices around it. -/
def Shape.innermost : Shape → Shape
  | .slice element => element.innermost
  | shape => shape

namespace Root

/-- The events of a run tell what its root leaves unsaid. -/
structure Candid (initialisms : Initialisms) (described : Reported Root) : Prop where
  /-- A field that takes anything had conflicting values. -/
  conflicts : ∀ r ∈ described.result.records, ∀ f ∈ r.fields, f.shape = .any →
    ∃ existing incoming,
      Event.typeConflict r.name f.sourceKey existing incoming ∈ described.events
  /-- A field that takes arrays of anything had an empty array or one of different elements. -/
  openArrays : ∀ r ∈ described.result.records, ∀ f ∈ r.fields, f.shape = .anySlice →
    Event.emptyArray f.sourceKey ∈ described.events ∨
      Event.heterogeneousArray f.sourceKey ∈ described.events
  /-- So had a root that takes arrays of anything. -/
  openRoot : ∀ name, described.result = .slice name .anySlice →
    Event.emptyArray name ∈ described.events ∨ Event.heterogeneousArray name ∈ described.events
  /-- A field of big numbers, or of arrays of them, had a big number. -/
  bigNumbers : ∀ r ∈ described.result.records, ∀ f ∈ r.fields, ∀ kind : ScalarKind, kind.isBig →
    f.shape.innermost = .scalar kind →
      Event.numericPromotion f.sourceKey kind ∈ described.events
  /-- A field whose identifier is not that of its key was renamed to it. -/
  renamed : ∀ r ∈ described.result.records, ∀ f ∈ r.fields,
    f.identifier ≠ Identifier.ofKey initialisms f.sourceKey →
      Event.identifierCollision r.name f.sourceKey f.identifier ∈ described.events
  /-- Without a gap in the root there was no alarm. -/
  quiet : described.result.Precise → Quiet described.events

/-- The records of a root are accounted for, and so is its own shape, under the name of the root. -/
def Accounted (initialisms : Initialisms) (events : List Event) : Root → Prop
  | .record r => r.Accounted initialisms events
  | .slice name shape => shape.Accounted initialisms events name name (name ++ "Item")

theorem Accounted.of_mem_records {initialisms : Initialisms} {events : List Event} {root : Root}
    (h : root.Accounted initialisms events) :
    ∀ r ∈ root.records, r.Backed initialisms events := by
  cases root with
  | record r => exact h
  | slice name shape => exact h.inner

variable {initialisms : Initialisms} {name : String} {index : Nat} {d : Value}
  {described : Reported Root}

theorem accounted_ofDocument (h : ofDocument initialisms name index d = .ok described) :
    described.result.Accounted initialisms described.events := by
  have hinside : ∀ v : Value, v.Accounted initialisms := Value.accounted initialisms
  cases d with
  | object members =>
    obtain rfl := Except.ok.inj h
    rw [Reported.events_map]
    exact (hinside (.object members) name).2
  | array elements =>
    rw [ofDocument] at h
    split at h
    · obtain rfl := Except.ok.inj h
      obtain ⟨-, hgathered⟩ := Value.accounted_ofObjects
        (fun v (_ : v ∈ elements) => hinside v) (Gathering.accounted_start [] name)
      rw [Reported.events_map, Record.ofObjects, Reported.events_map]
      exact hgathered.finish
    · obtain rfl := Except.ok.inj h
      rw [Reported.events_map]
      exact hinside (.array elements) name name (name ++ "Item")
  | _ => contradiction

theorem quiet_of_precise (h : ofDocument initialisms name index d = .ok described)
    (hprecise : described.result.Precise) : Quiet described.events := by
  have hinside : ∀ v : Value, v.Faithful initialisms := Value.faithful initialisms
  cases d with
  | object members =>
    obtain rfl := Except.ok.inj h
    rw [Reported.events_map]
    exact hinside (.object members) name hprecise
  | array elements =>
    rw [ofDocument] at h
    split at h
    · obtain rfl := Except.ok.inj h
      have hfields : ∀ f ∈ (Gathering.ofObjects initialisms (Gathering.start name)
          elements).result.record.fields, f.shape.Precise :=
        Gathering.precise_of_finish hprecise
      obtain ⟨-, hquiet⟩ := Value.precise_of_ofObjects (fun v _ => hinside v) hfields
      rw [Reported.events_map, Record.ofObjects, Reported.events_map]
      exact hquiet
    · obtain rfl := Except.ok.inj h
      rw [Reported.events_map]
      exact hinside (.array elements) name (name ++ "Item") hprecise
  | _ => contradiction

theorem promotion_mem_of_backed {events : List Event} {record key name : String}
    {kind : ScalarKind} (hbig : kind.isBig) : ∀ {a : Shape},
    a.Backed events record key name → a.innermost = .scalar kind →
      Event.numericPromotion key kind ∈ events
  | .slice element, ha, h => promotion_mem_of_backed (a := element) hbig ha h
  | .scalar _, ha, h => by
    obtain rfl := Shape.scalar.inj h
    exact ha hbig

/-- A described document comes with events that tell what its root leaves unsaid. -/
theorem candid_of_ofDocument (initialisms : Initialisms) (name : String) (index : Nat) {d : Value}
    {described : Reported Root} (h : ofDocument initialisms name index d = .ok described) :
    Candid initialisms described := by
  have haccounted := accounted_ofDocument h
  have hfield : ∀ r ∈ described.result.records, ∀ f ∈ r.fields,
      f.Backed initialisms described.events r.name := fun r hr => haccounted.of_mem_records r hr
  refine ⟨?_, ?_, ?_, ?_, ?_, quiet_of_precise h⟩
  · intro r hr f hf hany
    have hshape := (hfield r hr f hf).shape
    rw [hany] at hshape
    exact hshape
  · intro r hr f hf hslice
    have hshape := (hfield r hr f hf).shape
    rw [hslice] at hshape
    exact hshape
  · intro rootName hroot
    rw [hroot] at haccounted
    exact Shape.Accounted.backed haccounted
  · intro r hr f hf kind hbig hinner
    exact promotion_mem_of_backed hbig (hfield r hr f hf).shape hinner
  · intro r hr f hf hne
    exact (hfield r hr f hf).renamed hne

/-- Two keys of one identifier, an empty array inside another, a big number, and fields on which
the two examples differ. -/
theorem candid_of_ofDocument_of_array :
    let d : Value := .array
      [.object [("a_b", .integer 1), ("aB", .array [.array []]),
          ("c", .array [.object [("x", .integer 1180591620717411303424)]])],
        .object [("a_b", .string "s"), ("c", .array [.object [("x", .array [.null])]])]]
    ∃ described, ofDocument Initialisms.standard "Item" 0 d = .ok described ∧
      Candid Initialisms.standard described ∧
      described.result.records.map (·.fields.map fun f => (f.identifier, f.shape.label)) =
        [[("AB", "opaque"), ("AB2", "[]opaque"), ("C", "[]struct C")], [("X", "opaque")]] ∧
      described.events = [.emptyArray "aB", .identifierCollision "Item" "aB" "AB2",
        .numericPromotion "x" .bigInteger, .typeConflict "Item" "a_b" "int64" "string",
        .typeConflict "C" "x" "big integer" "[]null"] := by
  intro d
  obtain ⟨described, hdescribed⟩ :
    ∃ described, ofDocument Initialisms.standard "Item" 0 d = .ok described := ⟨_, rfl⟩
  refine ⟨described, hdescribed, candid_of_ofDocument _ _ _ hdescribed, ?_⟩
  obtain rfl := Except.ok.inj hdescribed
  decide +kernel

end Root

end Exemplar
