import Exemplar.Proofs.AccountsInference
import Exemplar.Proofs.FieldSteps
import Exemplar.Proofs.ScalarExamples

/-!
# What collision reports say in the end

Identifiers are numbered twice: within each example, and again when the examples are put together.
Both report. What is reported while examples are put together holds of the record from then on. What
is reported of an example alone holds of the record only if the example's numbering is kept.
-/

namespace Exemplar

/-- If the event says that a key had to take another identifier, the record has the key under that
identifier. -/
def Event.HoldsOf (r : Record) : Event → Prop
  | .identifierCollision record key identifier =>
    record = r.name ∧ (key, identifier) ∈ r.bindings
  | _ => True

variable {m : RecordMerge} {initialisms : Initialisms}

/-- Records that have more fields. -/
theorem Event.HoldsOf.mono {e : Event} {r s : Record} (h : e.HoldsOf r) (hname : s.name = r.name)
    (hbindings : r.bindings <+: s.bindings) : e.HoldsOf s := by
  cases e with
  | identifierCollision record key identifier =>
    exact ⟨h.1.trans hname.symm, hbindings.subset h.2⟩
  | _ => trivial

/-- What is reported of a field that is added. -/
theorem Record.holdsOf_addReporting {r : Record} {f : Field} {e : Event}
    (h : e ∈ (r.addReporting f).events) : e.HoldsOf (r.add f).1 := by
  obtain ⟨-, rfl⟩ := eq_collision_of_mem_addReporting h
  refine ⟨rfl, ?_⟩
  rw [bindings_add]
  exact List.mem_append_right _ List.mem_cons_self

namespace Gathering

variable {g : Gathering}

/-- A key that has an identifier keeps it. -/
theorem bindings_absorbField (g : Gathering) (f : Field) :
    g.record.bindings <+: (g.absorbField m f).result.record.bindings := by
  cases hfound : g.record.field? f.sourceKey with
  | some old => rw [bindings_absorbField_of_some m hfound]
  | none =>
    rw [record_absorbField_of_none m hfound, Record.bindings_add]
    exact List.prefix_append ..

theorem bindings_absorbFields (g : Gathering) (fields : List Field) :
    g.record.bindings <+: (g.absorbFields m fields).result.record.bindings := by
  induction fields generalizing g with
  | nil => exact List.prefix_rfl
  | cons f fields ih => exact (bindings_absorbField g f).trans (ih _)

theorem bindings_finish (g : Gathering) : g.finish.bindings = g.record.bindings :=
  map_withPresence _ (fun _ _ => rfl) ..

theorem bindings_ofObjects (g : Gathering) (values : List Value) :
    g.record.bindings <+: (ofObjects initialisms g values).result.record.bindings := by
  induction values generalizing g with
  | nil => exact List.prefix_rfl
  | cons v values ih =>
    refine List.IsPrefix.trans ?_ (ih _)
    cases v with
    | object members => exact bindings_absorbFields { g with examples := g.examples + 1 } _
    | _ => exact List.prefix_rfl

/-- What is reported when a field is taken in. -/
theorem holdsOf_absorbField {f : Field} {kind : ScalarKind} (hf : f.shape = .scalar kind)
    {e : Event} (h : e ∈ (g.absorbField m f).events) :
    e.HoldsOf (g.absorbField m f).result.record := by
  rw [events_absorbField] at h
  cases hfound : g.record.field? f.sourceKey with
  | some old =>
    rw [hfound] at h
    rw [Field.eq_typeConflict_of_mem_merge hf h]
    trivial
  | none =>
    rw [hfound] at h
    rw [record_absorbField_of_none m hfound]
    exact Record.holdsOf_addReporting h

/-- What is reported when the fields of an example are taken in. -/
theorem holdsOf_absorbFields {members : List (String × Value)} {fields : List Field}
    (hfields : List.Forall₂ Field.IsOf members fields) {e : Event}
    (h : e ∈ (g.absorbFields m fields).events) :
    e.HoldsOf (g.absorbFields m fields).result.record := by
  induction hfields generalizing g with
  | nil => exact absurd h List.not_mem_nil
  | @cons member f members fields hf _ ih =>
    obtain ⟨kind, -, hshape⟩ := hf.shape
    rw [absorbFields, Reported.events_bind, List.mem_append] at h
    rcases h with hnow | hlater
    · exact (holdsOf_absorbField hshape hnow).mono (absorbFields_frame _ fields).1
        (bindings_absorbFields _ fields)
    · exact ih hlater

/-- What is reported of an example alone is reported in the course of all examples. -/
theorem mem_events_ofObjects {members : List (String × Value)} {values : List Value}
    (h : Value.object members ∈ values) {e : Event}
    (he : e ∈ (Record.ofObject initialisms g.record.name members).events) :
    e ∈ (ofObjects initialisms g values).events := by
  induction values generalizing g with
  | nil => exact absurd h List.not_mem_nil
  | cons v values ih =>
    rw [ofObjects, Reported.events_bind, List.mem_append]
    rcases List.mem_cons.mp h with rfl | hrest
    · rw [ofObject, Reported.events_bind]
      exact Or.inl (List.mem_append_left _ he)
    · have hname : (ofObject initialisms g v).result.record.name = g.record.name :=
        name_ofObjects g initialisms [v]
      exact Or.inr (ih hrest (hname ▸ he))

/-- All else that is reported holds in the end. -/
theorem mem_or_holdsOf_ofObjects {examples : List (List (String × Value))}
    (hscalar : ∀ members ∈ examples, ∀ m ∈ members, m.2.isScalar) {e : Event}
    (h : e ∈ (ofObjects initialisms g (examples.map Value.object)).events) :
    (∃ members ∈ examples, e ∈ (Record.ofObject initialisms g.record.name members).events) ∨
      e.HoldsOf (ofObjects initialisms g (examples.map Value.object)).result.record := by
  induction examples generalizing g with
  | nil => exact absurd h List.not_mem_nil
  | cons members examples ih =>
    obtain ⟨hfirst, hrest⟩ := List.forall_mem_cons.mp hscalar
    have hname : (ofObject initialisms g (.object members)).result.record.name = g.record.name :=
      name_ofObjects g initialisms [.object members]
    rw [List.map_cons, ofObjects, Reported.events_bind, List.mem_append] at h
    rcases h with hnow | hlater
    · rw [ofObject, Reported.events_bind, List.mem_append] at hnow
      rcases hnow with hown | hput
      · exact Or.inl ⟨members, List.mem_cons_self, hown⟩
      · obtain ⟨fields, hresult, hfields, -⟩ :=
          Record.addMembers_of_scalars initialisms (Record.empty g.record.name) hfirst
        rw [hresult] at hput
        have hholds : e.HoldsOf (ofObject initialisms g (.object members)).result.record := by
          rw [ofObject, Reported.result_bind, hresult]
          exact holdsOf_absorbFields (g := { g with examples := g.examples + 1 }) hfields hput
        exact Or.inr (hholds.mono (name_ofObjects _ initialisms (examples.map .object))
          (bindings_ofObjects _ (examples.map .object)))
    · rcases ih hrest hlater with ⟨others, hothers, hown⟩ | hholds
      · rw [hname] at hown
        exact Or.inl ⟨others, List.mem_cons_of_mem _ hothers, hown⟩
      · exact Or.inr hholds

end Gathering

namespace Record

/-- Every reported collision holds of the record exactly if each example that has to number a key
numbers it as the record does in the end. -/
theorem collisions_ofObjects_hold_iff (initialisms : Initialisms) (name : String)
    (examples : List (List (String × Value)))
    (hscalar : ∀ members ∈ examples, ∀ m ∈ members, m.2.isScalar) :
    let described := ofObjects initialisms name (examples.map Value.object)
    (∀ record key identifier, .identifierCollision record key identifier ∈ described.events →
        record = name ∧
          ∃ f ∈ described.result.fields, f.sourceKey = key ∧ f.identifier = identifier) ↔
      ∀ members ∈ examples, ∀ f ∈ (ofObject initialisms name members).result.fields,
        f.identifier ≠ Identifier.ofKey initialisms f.sourceKey →
          ∃ g ∈ described.result.fields,
            g.sourceKey = f.sourceKey ∧ g.identifier = f.identifier := by
  intro described
  let gathered := Gathering.ofObjects initialisms (Gathering.start name) (examples.map Value.object)
  have hevents : described.events = gathered.events := Reported.events_map ..
  have hname : gathered.result.record.name = name := Gathering.name_ofObjects ..
  have hbindings : described.result.bindings = gathered.result.record.bindings :=
    Gathering.bindings_finish _
  simp only [← mem_bindings, hevents, hbindings]
  constructor
  · intro h members hmembers f hf hrenamed
    have hown : Event.identifierCollision name f.sourceKey f.identifier ∈
        (ofObject initialisms name members).events := by
      obtain ⟨hrecord, haccounted⟩ := Value.accounted initialisms (.object members) name
      have hbacked := (accounted_iff.mp haccounted f hf).backed.renamed hrenamed
      rwa [hrecord] at hbacked
    exact (h _ _ _
      (Gathering.mem_events_ofObjects (g := Gathering.start name)
        (List.mem_map_of_mem hmembers) hown)).2
  · intro h record key identifier he
    rcases Gathering.mem_or_holdsOf_ofObjects hscalar he with ⟨members, hmembers, hown⟩ | hholds
    · obtain ⟨fields, hresult, -, halone⟩ :=
        addMembers_of_scalars initialisms (Record.empty name) (hscalar members hmembers)
      rcases halone _ hown with ⟨_, _, hpromotion⟩ | ⟨f, hf, hrenamed, hcollision⟩
      · contradiction
      · obtain ⟨rfl, rfl, rfl⟩ := Event.identifierCollision.inj hcollision
        refine ⟨rfl, h members hmembers f ?_ hrenamed⟩
        rw [ofObject, hresult]
        exact hf
    · exact ⟨hholds.1.trans hname, hholds.2⟩

/-- One example numbers the second of three keys, the record the second and the third. -/
theorem collisions_ofObjects_hold_iff_of_three :
    let examples : List (List (String × Value)) :=
      [[("a_b", .integer 1), ("aB", .null)], [("aB", .boolean true)], [("a-b", .string "x")]]
    let described := ofObjects Initialisms.standard "Item" (examples.map Value.object)
    (∀ members ∈ examples, ∀ m ∈ members, m.2.isScalar) ∧
      ((∀ record key identifier, .identifierCollision record key identifier ∈ described.events →
          record = "Item" ∧
            ∃ f ∈ described.result.fields, f.sourceKey = key ∧ f.identifier = identifier) ↔
        ∀ members ∈ examples, ∀ f ∈ (ofObject Initialisms.standard "Item" members).result.fields,
          f.identifier ≠ Identifier.ofKey Initialisms.standard f.sourceKey →
            ∃ g ∈ described.result.fields,
              g.sourceKey = f.sourceKey ∧ g.identifier = f.identifier) := by
  intro examples described
  have hscalar : ∀ members ∈ examples, ∀ m ∈ members, m.2.isScalar := by decide
  exact ⟨hscalar, collisions_ofObjects_hold_iff Initialisms.standard "Item" examples hscalar⟩

/-- The second example alone numbers the key that the first one has already named. It is reported
under an identifier that is the other key's in the end. -/
theorem collision_reported_for_other_key :
    let examples : List (List (String × Value)) :=
      [[("aB", .integer 1)], [("a_b", .integer 1), ("aB", .integer 1)]]
    let described := ofObjects Initialisms.standard "Root" (examples.map Value.object)
    (∀ members ∈ examples, (Value.object members).keysDistinct) ∧
      (∀ members ∈ examples, ∀ m ∈ members, m.2.isScalar) ∧
      .identifierCollision "Root" "aB" "AB2" ∈ described.events ∧
      ¬∃ f ∈ described.result.fields, f.sourceKey = "aB" ∧ f.identifier = "AB2" := by
  intro examples described
  have hevents : described.events = [.identifierCollision "Root" "aB" "AB2",
      .identifierCollision "Root" "a_b" "AB2"] := by decide +kernel
  have hbindings : described.result.bindings = [("aB", "AB"), ("a_b", "AB2")] := by decide +kernel
  refine ⟨by decide, by decide, ?_, ?_⟩
  · rw [hevents]
    exact List.mem_cons_self
  · rw [← mem_bindings, hbindings]
    decide

end Record

end Exemplar
