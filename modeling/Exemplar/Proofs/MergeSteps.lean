import Exemplar.Proofs.Gathering

/-!
# What one step of merging can do

Joining two shapes, merging two fields and adding a field to a record each have a few outcomes.
They are listed here once, with the events that come with them, so that an invariant of merging is
shown outcome by outcome and not branch by branch of the code.
-/

namespace Exemplar

variable {m : RecordMerge}

namespace Shape

/-- The ways in which two shapes join. One of them covers the other as it is, or both are of one
form and are joined further in. -/
inductive JoinStep (m : RecordMerge) : Shape → Shape → Reported Shape → Prop where
  | left {a b : Shape} (h : a = any ∨ a = anySlice ∨ b = scalar .null) : JoinStep m a b (pure a)
  | right {a b : Shape} (h : b = any ∨ b = anySlice ∨ a = scalar .null) : JoinStep m a b (pure b)
  | kinds {j k kind : ScalarKind} (h : j.join? k = some kind) :
    JoinStep m (scalar j) (scalar k) (pure (scalar kind))
  | structs (a b : Record) : JoinStep m (struct a) (struct b) (struct <$> m a b)
  | structSlices (a b : Record) :
    JoinStep m (structSlice a) (structSlice b) (structSlice <$> m a b)
  | slices {a b : Shape} {joined : Reported Shape} (h : a.elementJoin? m b = some joined) :
    JoinStep m (slice a) (slice b) (slice <$> joined)

theorem joinStep_of_join? {a b : Shape} {r : Reported Shape} (h : a.join? m b = some r) :
    JoinStep m a b r := by
  fun_cases Shape.join? m a b
  case case1 =>
    obtain rfl : pure any = r := by simpa [Shape.join?] using h
    exact .left (Or.inl rfl)
  case case2 =>
    obtain rfl : pure any = r := by simpa [Shape.join?] using h
    exact .right (Or.inl rfl)
  case case3 j k =>
    obtain ⟨kind, hkind, rfl⟩ := Option.map_eq_some_iff.mp h
    exact .kinds hkind
  case case4 =>
    obtain rfl : pure b = r := by simp_all [Shape.join?]
    exact .right (Or.inr (Or.inr rfl))
  case case5 =>
    obtain rfl : pure a = r := by simp_all [Shape.join?]
    exact .left (Or.inr (Or.inr rfl))
  case case6 a b =>
    obtain rfl := Option.some.inj h
    exact .structs a b
  case case7 a b =>
    obtain rfl := Option.some.inj h
    exact .structSlices a b
  case case8 a b =>
    obtain ⟨joined, hjoined, rfl⟩ := Option.map_eq_some_iff.mp h
    exact .slices hjoined
  case case9 =>
    obtain rfl : pure anySlice = r := by simp_all [Shape.join?]
    exact .left (Or.inr (Or.inl rfl))
  case case11 =>
    obtain rfl : pure anySlice = r := by simp_all [Shape.join?]
    exact .right (Or.inr (Or.inl rfl))
  all_goals simp_all [Shape.join?]

end Shape

/-- The ways in which two fields merge: their shapes join, or they do not and this is reported.
All else about the merged field is left open here. -/
inductive Field.MergeStep (m : RecordMerge) (record : String) (f g : Field) :
    Shape → List Event → Prop where
  | joined {r : Reported Shape} (h : f.shape.JoinStep m g.shape r) :
    Field.MergeStep m record f g r.result r.events
  | slices (h : f.shape.isSlice && g.shape.isSlice) :
    Field.MergeStep m record f g .anySlice [.heterogeneousArray f.sourceKey]
  | conflict :
    Field.MergeStep m record f g .any
      [.typeConflict record f.sourceKey f.shape.label g.shape.label]

theorem Field.mergeStep (m : RecordMerge) (record : String) (f g : Field) :
    Field.MergeStep m record f g (f.merge m record g).result.shape
      (f.merge m record g).events := by
  rw [Field.merge]
  cases hj : f.shape.join? m g.shape with
  | some joined =>
    have hevents : (joined.events ++ [] : List Event) = joined.events := List.append_nil _
    have hstep : Field.MergeStep m record f g joined.result joined.events :=
      Field.MergeStep.joined (Shape.joinStep_of_join? hj)
    rw [← hevents] at hstep
    exact hstep
  | none =>
    dsimp only
    split
    · next hslices => exact .slices hslices
    · exact .conflict

/-- Merging changes no key and no identifier. -/
theorem Field.merge_frame (m : RecordMerge) (record : String) (f g : Field) :
    (f.merge m record g).result.sourceKey = f.sourceKey ∧
      (f.merge m record g).result.identifier = f.identifier := by
  rw [Field.result_merge]
  exact ⟨rfl, rfl⟩

/-- A field is added as it is, or its identifier is changed and this is reported. -/
theorem Record.addReporting_cases (r : Record) (f : Field) :
    ((r.addReporting f).result = { r with fields := r.fields ++ [f] } ∧
        (r.addReporting f).events = []) ∨
      ∃ identifier, identifier ≠ f.identifier ∧
        identifier = Fresh.name r.identifiers f.identifier ∧
        (r.addReporting f).result = { r with fields := r.fields ++ [{ f with identifier }] } ∧
        (r.addReporting f).events = [.identifierCollision r.name f.sourceKey identifier] := by
  by_cases hne : (r.renamed f).identifier ≠ f.identifier
  · right
    refine ⟨(r.renamed f).identifier, hne, rfl, r.result_addReporting f, ?_⟩
    rw [Record.addReporting_of_changed hne]
  · left
    have hname : Fresh.name r.identifiers f.identifier = f.identifier :=
      Decidable.not_not.mp hne
    have hsame : r.renamed f = f := by
      rw [Record.renamed, hname]
      cases f
      rfl
    refine ⟨?_, ?_⟩
    · rw [Record.result_addReporting, Record.add, hsame]
    · rw [Record.addReporting_of_unchanged hname]
      rfl

/-- All that is reported of an added field is that it took another identifier. -/
theorem Record.eq_collision_of_mem_addReporting {r : Record} {f : Field} {e : Event}
    (h : e ∈ (r.addReporting f).events) :
    (r.renamed f).identifier ≠ f.identifier ∧
      e = .identifierCollision r.name f.sourceKey (r.renamed f).identifier := by
  by_cases hne : (r.renamed f).identifier ≠ f.identifier
  · rw [addReporting_of_changed hne] at h
    exact ⟨hne, List.mem_singleton.mp h⟩
  · rw [addReporting_of_unchanged (Decidable.not_not.mp hne)] at h
    exact absurd h List.not_mem_nil

end Exemplar
