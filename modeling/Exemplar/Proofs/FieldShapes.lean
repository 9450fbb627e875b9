import Exemplar.Proofs.DistinctFields

/-!
# What merging keeps of the shapes of fields

Where records count by their names alone, merging two fields brings forth nothing new: the merged
field has the shape of one of them, or takes anything. So what can be told of a shape without
looking into its records, and does not exclude shapes that take anything, holds of every field of a
merged record if it holds of every field of the records that are merged, at every depth.
-/

namespace Exemplar

variable {m : RecordMerge} {W : String → Shape → Prop}

/-- Records are merged under the name of the first one. -/
def RecordMerge.Names (m : RecordMerge) : Prop :=
  ∀ a b, (m a b).result.name = a.name

namespace Shape

theorem similar_refl : ∀ a : Shape, a.similar a
  | scalar _ | struct _ | structSlice _ => decide_eq_true rfl
  | slice element => similar_refl element
  | anySlice | any => rfl

theorem similar_elementJoin? (hm : m.Names) {a b : Shape} {joined : Reported Shape}
    (h : a.elementJoin? m b = some joined) :
    joined.result.similar a ∨ joined.result.similar b := by
  fun_induction elementJoin? m a b generalizing joined with
  | case1 kind =>
    obtain rfl := Option.some.inj h
    exact Or.inl (similar_refl _)
  | case2 => contradiction
  | case3 j k =>
    obtain ⟨kind, hkind, rfl⟩ := Option.map_eq_some_iff.mp h
    rcases ScalarKind.eq_or_eq_of_join? hkind with rfl | rfl
    · exact Or.inl (similar_refl _)
    · exact Or.inr (similar_refl _)
  | case4 a b ih =>
    obtain ⟨element, helement, rfl⟩ := Option.map_eq_some_iff.mp h
    exact ih helement
  | case5 a b =>
    obtain rfl := Option.some.inj h
    exact Or.inl (decide_eq_true (hm a b))
  | case6 => contradiction

/-- Shapes join to one of them, up to what is inside their records. -/
theorem similar_joinStep (hm : m.Names) {a b : Shape} {joined : Reported Shape}
    (h : JoinStep m a b joined) : joined.result.similar a ∨ joined.result.similar b := by
  cases h with
  | left => exact Or.inl (similar_refl _)
  | right => exact Or.inr (similar_refl _)
  | kinds hkind =>
    rcases ScalarKind.eq_or_eq_of_join? hkind with rfl | rfl
    · exact Or.inl (similar_refl _)
    · exact Or.inr (similar_refl _)
  | structs a b => exact Or.inl (decide_eq_true (hm a b))
  | structSlices a b => exact Or.inl (decide_eq_true (hm a b))
  | @slices a b element helement =>
    have hinner : element.result.similar a ∨ element.result.similar b :=
      similar_elementJoin? (a := a) (b := b) hm helement
    exact hinner

/-- What can be said of a shape under a key without looking into its records, and holds of shapes
that take anything. -/
structure Lasting (W : String → Shape → Prop) : Prop where
  any (key : String) : W key .any
  anySlice (key : String) : W key .anySlice
  congr {key : String} {a b : Shape} (h : a.similar b) (hb : W key b) : W key a

end Shape

/-- The shapes of the fields of a record are as they should be under their keys. -/
def Record.Shaped (W : String → Shape → Prop) (r : Record) : Prop :=
  ∀ f ∈ r.fields, W f.sourceKey f.shape

theorem Field.shaped_merge (hW : Shape.Lasting W) (hm : m.Names) (record : String) {f g : Field}
    (hkey : f.sourceKey = g.sourceKey) (hf : W f.sourceKey f.shape) (hg : W g.sourceKey g.shape) :
    W (f.merge m record g).result.sourceKey (f.merge m record g).result.shape := by
  have hstep := Field.mergeStep m record f g
  rw [(f.merge_frame m record g).1]
  generalize (f.merge m record g).result.shape = merged at hstep ⊢
  generalize (f.merge m record g).events = reported at hstep
  cases hstep with
  | joined hjoin =>
    rcases Shape.similar_joinStep hm hjoin with hsimilar | hsimilar
    · exact hW.congr hsimilar hf
    · exact hW.congr hsimilar (hkey ▸ hg)
  | slices => exact hW.anySlice f.sourceKey
  | conflict => exact hW.any f.sourceKey

namespace Gathering

variable {g : Gathering}

/-- One field of an example. -/
theorem shaped_absorbField (hW : Shape.Lasting W) (hname : m.Names)
    (hm : ∀ a b, Record.MergesWith (Record.Shaped W) a b (m a b))
    (hg : ∀ r ∈ g.record.records, r.Shaped W) {f : Field} (hf : W f.sourceKey f.shape)
    (hinside : ∀ r ∈ f.shape.records, r.Shaped W) :
    ∀ r ∈ (g.absorbField m f).result.record.records, r.Shaped W := by
  obtain ⟨hown, hinner⟩ := Record.forall_mem_records.mp hg
  rw [absorbField]
  cases hmerge : mergeInto? m g.record.name f g.record.fields with
  | some merged =>
    obtain ⟨-, -, hfields⟩ := mergeInto?_frame hmerge
    refine Record.forall_mem_records.mpr ⟨fun f' hf' => ?_, fun f' hf' => ?_⟩
    · rcases hfields f' hf' with hold | ⟨old, hold, hkey, rfl⟩
      · exact hown f' hold
      · exact Field.shaped_merge hW hname g.record.name hkey (hown old hold) hf
    · rcases hfields f' hf' with hold | ⟨old, hold, -, rfl⟩
      · exact hinner f' hold
      · exact Field.forall_records_merge hm g.record.name (hinner old hold) hinside
  | none =>
    rw [Reported.result_bind, Record.result_addReporting]
    refine Record.forall_mem_records.mpr ⟨?_, ?_⟩
    · exact List.forall_mem_append.mpr ⟨hown, List.forall_mem_singleton.mpr hf⟩
    · exact List.forall_mem_append.mpr ⟨hinner, List.forall_mem_singleton.mpr hinside⟩

/-- All fields of an example. -/
theorem shaped_absorbFields (hW : Shape.Lasting W) (hname : m.Names)
    (hm : ∀ a b, Record.MergesWith (Record.Shaped W) a b (m a b))
    (hg : ∀ r ∈ g.record.records, r.Shaped W) {fields : List Field}
    (hfields : ∀ f ∈ fields, W f.sourceKey f.shape)
    (hinside : ∀ f ∈ fields, ∀ r ∈ f.shape.records, r.Shaped W) :
    ∀ r ∈ (g.absorbFields m fields).result.record.records, r.Shaped W := by
  induction fields generalizing g with
  | nil => exact hg
  | cons f fields ih =>
    obtain ⟨hfirst, hrest⟩ := List.forall_mem_cons.mp hfields
    obtain ⟨hfirstInside, hrestInside⟩ := List.forall_mem_cons.mp hinside
    exact ih (shaped_absorbField hW hname hm hg hfirst hfirstInside) hrest hrestInside

theorem shaped_absorb (hW : Shape.Lasting W) (hname : m.Names)
    (hm : ∀ a b, Record.MergesWith (Record.Shaped W) a b (m a b))
    (hg : ∀ r ∈ g.record.records, r.Shaped W) {sample : Record}
    (hsample : ∀ r ∈ sample.records, r.Shaped W) :
    ∀ r ∈ (g.absorb m sample).result.record.records, r.Shaped W := by
  obtain ⟨hown, hinner⟩ := Record.forall_mem_records.mp hsample
  exact shaped_absorbFields (g := { g with examples := g.examples + 1 }) hW hname hm hg hown hinner

theorem shaped_finish (hg : ∀ r ∈ g.record.records, r.Shaped W) :
    ∀ r ∈ g.finish.records, r.Shaped W := by
  obtain ⟨hown, hinner⟩ := Record.forall_mem_records.mp hg
  refine Record.forall_mem_records.mpr ⟨?_, ?_⟩
  · exact (forall_mem_withPresence (fun _ _ => Iff.rfl) ..).mpr hown
  · exact (forall_mem_withPresence (fun _ _ => Iff.rfl) ..).mpr hinner

end Gathering

namespace Record

theorem names_mergeWith (m : RecordMerge) : RecordMerge.Names (mergeWith m) := fun _ b =>
  (Gathering.absorbFields_frame _ b.fields).1.trans (Gathering.absorbFields_frame _ _).1

theorem shaped_mergeWith (hW : Shape.Lasting W) (hname : m.Names)
    (hm : ∀ a b, MergesWith (Shaped W) a b (m a b)) (a b : Record) :
    MergesWith (Shaped W) a b (mergeWith m a b) := by
  intro ha hb
  have hstart : ∀ r ∈ (Gathering.start a.name).record.records, r.Shaped W :=
    forall_mem_records.mpr ⟨fun _ hf => absurd hf List.not_mem_nil,
      fun _ hf => absurd hf List.not_mem_nil⟩
  have hfirst := Gathering.shaped_absorb hW hname hm hstart ha
  exact Gathering.shaped_finish (Gathering.shaped_absorb hW hname hm hfirst hb)

/-- What lasts holds of all fields of a merged record, at every depth, if it holds of all fields of
both records. -/
theorem shaped_merge (hW : Shape.Lasting W) (a b : Record) :
    MergesWith (Shaped W) a b (merge a b) := by
  have hboth : (merge a b).result.name = a.name ∧ MergesWith (Shaped W) a b (merge a b) := by
    refine merge_induction (P := fun a b merged => merged.result.name = a.name ∧
      MergesWith (Shaped W) a b merged) (fun a _ => pure a) ?_ ?_ a b
    · exact fun a b => ⟨rfl, fun ha _ => ha⟩
    · exact fun m hm a b => ⟨names_mergeWith m a b,
        shaped_mergeWith hW (fun a b => (hm a b).1) (fun a b => (hm a b).2) a b⟩
  exact hboth.2

end Record

end Exemplar
