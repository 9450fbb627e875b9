import Exemplar.Inference
import Exemplar.Proofs.MergeSteps
import Mathlib.Data.List.Forall2

/-!
# Examples that hold scalars only

An object of scalars becomes a record of scalar fields, one for each member. Nothing is reported
but numbers that need more than 64 bits, and keys that had to take another identifier.
-/

namespace Exemplar

variable {initialisms : Initialisms}

theorem Shape.ofValue_of_scalar {v : Value} {kind : ScalarKind} (h : v.scalarKind? = some kind)
    (key identifier : String) :
    Shape.ofValue initialisms key identifier v = (do
      reportPromotion key kind
      return .scalar kind) := by
  cases v with
  | object members => contradiction
  | array elements => contradiction
  | _ =>
    rw [Shape.ofValue, h] <;> simp

theorem eq_promotion_of_mem_reportPromotion {key : String} {kind : ScalarKind} {e : Event}
    (h : e ∈ (reportPromotion key kind).events) : e = .numericPromotion key kind := by
  cases kind with
  | bigInteger | bigFloat => exact List.mem_singleton.mp h
  | _ => exact absurd h List.not_mem_nil

/-- Merging a scalar into a field reports at most that the two do not fit together. -/
theorem Field.eq_typeConflict_of_mem_merge {m : RecordMerge} {f g : Field} {kind : ScalarKind}
    (hg : g.shape = .scalar kind) {record : String} {e : Event}
    (h : e ∈ (f.merge m record g).events) :
    e = .typeConflict record f.sourceKey f.shape.label kind.label := by
  have hstep := Field.mergeStep m record f g
  generalize (f.merge m record g).result.shape = merged at hstep
  generalize (f.merge m record g).events = reported at hstep h
  cases hstep with
  | joined hjoin =>
    rw [hg] at hjoin
    generalize f.shape = shape at hjoin
    cases hjoin <;> exact absurd h List.not_mem_nil
  | slices hslices =>
    rw [hg] at hslices
    exact absurd hslices (by simp [Shape.isSlice])
  | conflict =>
    rw [hg, List.mem_singleton] at h
    exact h

/-- The field that a member of a scalar becomes. -/
structure Field.IsOf (member : String × Value) (f : Field) : Prop where
  sourceKey : f.sourceKey = member.1
  shape : ∃ kind, member.2.scalarKind? = some kind ∧ f.shape = .scalar kind

/-- One member after the other. -/
theorem Record.addMembers_cons_of_scalar (initialisms : Initialisms) (r : Record)
    (members : List (String × Value)) {key : String} {v : Value} {kind : ScalarKind}
    (h : v.scalarKind? = some kind) :
    addMembers initialisms r ((key, v) :: members) = (do
      reportPromotion key kind
      let record ← r.addReporting
        ⟨key, Identifier.ofKey initialisms key, .scalar kind, false, v.sample?⟩
      addMembers initialisms record members) := by
  rw [addMembers, Shape.ofValue_of_scalar h]
  simp only [bind_assoc, pure_bind]

theorem Record.addMembers_of_scalars (initialisms : Initialisms) (r : Record)
    {members : List (String × Value)} (h : ∀ m ∈ members, m.2.isScalar) :
    ∃ fields, (addMembers initialisms r members).result = ⟨r.name, r.fields ++ fields⟩ ∧
      List.Forall₂ Field.IsOf members fields ∧
      ∀ e ∈ (addMembers initialisms r members).events,
        (∃ key kind, e = .numericPromotion key kind) ∨
          ∃ f ∈ fields, f.identifier ≠ Identifier.ofKey initialisms f.sourceKey ∧
            e = .identifierCollision r.name f.sourceKey f.identifier := by
  induction members generalizing r with
  | nil =>
    refine ⟨[], ?_, .nil, fun e he => absurd he List.not_mem_nil⟩
    cases r
    rw [List.append_nil]
    rfl
  | cons m members ih =>
    obtain ⟨hm, hrest⟩ := List.forall_mem_cons.mp h
    obtain ⟨key, v⟩ := m
    obtain ⟨kind, hkind⟩ := Option.isSome_iff_exists.mp hm
    let added : Field :=
      ⟨key, Identifier.ofKey initialisms key, .scalar kind, false, v.sample?⟩
    have hstep : addMembers initialisms r ((key, v) :: members) = (do
        reportPromotion key kind
        let record ← r.addReporting added
        addMembers initialisms record members) :=
      addMembers_cons_of_scalar initialisms r members hkind
    obtain ⟨fields, hresult, hfields, hevents⟩ := ih (r.add added).1 hrest
    refine ⟨r.renamed added :: fields, ?_, .cons ⟨rfl, kind, hkind, rfl⟩ hfields, ?_⟩
    · rw [hstep, Reported.result_bind, Reported.result_bind, Record.result_addReporting, hresult,
        Record.add, List.append_assoc]
      rfl
    · intro e he
      rw [hstep, Reported.events_bind, Reported.events_bind, Record.result_addReporting,
        List.mem_append, List.mem_append] at he
      rcases he with hpromotion | hadded | hlater
      · exact Or.inl ⟨key, kind, eq_promotion_of_mem_reportPromotion hpromotion⟩
      · obtain ⟨hne, hcollision⟩ := eq_collision_of_mem_addReporting hadded
        exact Or.inr ⟨r.renamed added, List.mem_cons_self, hne, hcollision⟩
      · rcases hevents e hlater with hpromotion | ⟨f, hf, hrenamed⟩
        · exact Or.inl hpromotion
        · exact Or.inr ⟨f, List.mem_cons_of_mem _ hf, hrenamed⟩

end Exemplar
