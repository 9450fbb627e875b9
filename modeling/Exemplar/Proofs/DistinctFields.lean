import Exemplar.Proofs.InferredRoots

/-!
# Keys and identifiers stay distinct

A field that is added to a record takes an identifier that is free; merging two fields keeps key
and identifier of the first, and a field is added only under a key that is new. So what adding such
a field cannot break holds after merging, at every depth, if it held before. Distinct keys and
distinct identifiers are two such properties. Inference gives distinct identifiers to the fields of
every record, whatever keys the documents have.
-/

namespace Exemplar

/-- What holds of a record without fields and does not cease to hold when a field is added under a
key that is new. Only keys and identifiers matter. -/
structure Record.Stable (P : Record → Prop) : Prop where
  empty (name : String) : P (.empty name)
  add {r : Record} (f : Field) (hr : P r) (hkey : f.sourceKey ∉ r.sourceKeys) : P (r.add f).1
  congr {r s : Record} (hkeys : r.sourceKeys = s.sourceKeys)
    (hidentifiers : r.identifiers = s.identifiers) (hr : P r) : P s

variable {P : Record → Prop} {m : RecordMerge} {initialisms : Initialisms}

theorem Record.Stable.and {Q : Record → Prop} (hP : Record.Stable P) (hQ : Record.Stable Q) :
    Record.Stable fun r => P r ∧ Q r where
  empty name := ⟨hP.empty name, hQ.empty name⟩
  add f hr hkey := ⟨hP.add f hr.1 hkey, hQ.add f hr.2 hkey⟩
  congr hkeys hidentifiers hr :=
    ⟨hP.congr hkeys hidentifiers hr.1, hQ.congr hkeys hidentifiers hr.2⟩

theorem forall_mem_nil_records : ∀ r ∈ ([] : List Record), P r :=
  fun _ hr => absurd hr List.not_mem_nil

/-! Merging -/

/-- The merge of two records has a property everywhere if both records have it everywhere. -/
def Record.MergesWith (P : Record → Prop) (a b : Record) (merged : Reported Record) : Prop :=
  (∀ r ∈ a.records, P r) → (∀ r ∈ b.records, P r) → ∀ r ∈ merged.result.records, P r

namespace Shape

theorem forall_records_elementJoin? (hm : ∀ a b, Record.MergesWith P a b (m a b)) {a b : Shape}
    (ha : ∀ r ∈ a.records, P r) (hb : ∀ r ∈ b.records, P r) {joined : Reported Shape}
    (h : a.elementJoin? m b = some joined) : ∀ r ∈ joined.result.records, P r := by
  fun_induction elementJoin? m a b generalizing joined with
  | case1 kind =>
    obtain rfl := Option.some.inj h
    exact ha
  | case2 => contradiction
  | case3 j k =>
    obtain ⟨kind, -, rfl⟩ := Option.map_eq_some_iff.mp h
    exact forall_mem_nil_records
  | case4 a b ih =>
    obtain ⟨element, helement, rfl⟩ := Option.map_eq_some_iff.mp h
    have hinner := ih ha hb helement
    exact hinner
  | case5 a b =>
    obtain rfl := Option.some.inj h
    exact hm a b ha hb
  | case6 => contradiction

theorem forall_records_joinStep (hm : ∀ a b, Record.MergesWith P a b (m a b)) {a b : Shape}
    (ha : ∀ r ∈ a.records, P r) (hb : ∀ r ∈ b.records, P r) {joined : Reported Shape}
    (h : JoinStep m a b joined) : ∀ r ∈ joined.result.records, P r := by
  cases h with
  | left => exact ha
  | right => exact hb
  | kinds => exact forall_mem_nil_records
  | structs a b => exact hm a b ha hb
  | structSlices a b => exact hm a b ha hb
  | @slices a b element helement =>
    have hinner : ∀ r ∈ element.result.records, P r :=
      forall_records_elementJoin? (a := a) (b := b) hm ha hb helement
    exact hinner

end Shape

theorem Field.forall_records_merge (hm : ∀ a b, Record.MergesWith P a b (m a b)) (record : String)
    {f g : Field} (hf : ∀ r ∈ f.shape.records, P r) (hg : ∀ r ∈ g.shape.records, P r) :
    ∀ r ∈ (f.merge m record g).result.shape.records, P r := by
  have hstep := Field.mergeStep m record f g
  generalize (f.merge m record g).result.shape = merged at hstep ⊢
  generalize (f.merge m record g).events = reported at hstep
  cases hstep with
  | joined hjoin => exact Shape.forall_records_joinStep hm hf hg hjoin
  | slices => exact forall_mem_nil_records
  | conflict => exact forall_mem_nil_records

namespace Gathering

theorem not_mem_of_mergeInto?_eq_none {record : String} {incoming : Field} {fields : List Field}
    (h : mergeInto? m record incoming fields = none) :
    incoming.sourceKey ∉ fields.map Field.sourceKey := by
  induction fields with
  | nil => exact List.not_mem_nil
  | cons f fields ih =>
    rw [mergeInto?] at h
    by_cases hkey : f.sourceKey = incoming.sourceKey
    · rw [if_pos hkey] at h
      contradiction
    · rw [if_neg hkey, Option.map_eq_none_iff] at h
      rw [List.map_cons, List.mem_cons, not_or]
      exact ⟨Ne.symm hkey, ih h⟩

/-- Merging a field into a list of fields changes at most one of them, and neither keys nor
identifiers. -/
theorem mergeInto?_frame {record : String} {incoming : Field} {fields : List Field}
    {merged : Reported (List Field)} (h : mergeInto? m record incoming fields = some merged) :
    merged.result.map Field.sourceKey = fields.map Field.sourceKey ∧
      merged.result.map Field.identifier = fields.map Field.identifier ∧
      ∀ f ∈ merged.result, f ∈ fields ∨
        ∃ old ∈ fields, old.sourceKey = incoming.sourceKey ∧
          f = (old.merge m record incoming).result := by
  induction fields generalizing merged with
  | nil => contradiction
  | cons f fields ih =>
    rw [mergeInto?] at h
    by_cases hkey : f.sourceKey = incoming.sourceKey
    · rw [if_pos hkey] at h
      obtain rfl := Option.some.inj h
      obtain ⟨hsame, hidentifier⟩ := f.merge_frame m record incoming
      rw [Reported.result_map]
      simp only [List.map_cons, hsame, hidentifier, true_and]
      refine List.forall_mem_cons.mpr ⟨Or.inr ⟨f, List.mem_cons_self, hkey, rfl⟩, ?_⟩
      exact fun g hg => Or.inl (List.mem_cons_of_mem _ hg)
    · rw [if_neg hkey] at h
      obtain ⟨rest, hrest, rfl⟩ := Option.map_eq_some_iff.mp h
      obtain ⟨hsame, hidentifier, hfields⟩ := ih hrest
      rw [Reported.result_map]
      simp only [List.map_cons, hsame, hidentifier, true_and]
      refine List.forall_mem_cons.mpr ⟨Or.inl List.mem_cons_self, fun g hg => ?_⟩
      rcases hfields g hg with hold | ⟨old, hold, hmerged⟩
      · exact Or.inl (List.mem_cons_of_mem _ hold)
      · exact Or.inr ⟨old, List.mem_cons_of_mem _ hold, hmerged⟩

variable {g : Gathering}

/-- One field of an example. -/
theorem forall_records_absorbField (hP : Record.Stable P)
    (hm : ∀ a b, Record.MergesWith P a b (m a b)) (hg : ∀ r ∈ g.record.records, P r) {f : Field}
    (hf : ∀ r ∈ f.shape.records, P r) :
    ∀ r ∈ (g.absorbField m f).result.record.records, P r := by
  obtain ⟨hown, hinner⟩ := Record.forall_mem_records.mp hg
  rw [absorbField]
  cases hmerge : mergeInto? m g.record.name f g.record.fields with
  | some merged =>
    obtain ⟨hkeys, hidentifiers, hfields⟩ := mergeInto?_frame hmerge
    refine Record.forall_mem_records.mpr ⟨hP.congr hkeys.symm hidentifiers.symm hown, ?_⟩
    intro f' hf'
    rcases hfields f' hf' with hold | ⟨old, hold, -, rfl⟩
    · exact hinner f' hold
    · exact Field.forall_records_merge hm g.record.name (hinner old hold) hf
  | none =>
    have hadded := hP.add f hown (not_mem_of_mergeInto?_eq_none hmerge)
    rw [Reported.result_bind, Record.result_addReporting]
    refine Record.forall_mem_records.mpr ⟨hadded, ?_⟩
    exact List.forall_mem_append.mpr ⟨hinner, List.forall_mem_singleton.mpr hf⟩

/-- All fields of an example. -/
theorem forall_records_absorbFields (hP : Record.Stable P)
    (hm : ∀ a b, Record.MergesWith P a b (m a b)) (hg : ∀ r ∈ g.record.records, P r)
    {fields : List Field} (hfields : ∀ f ∈ fields, ∀ r ∈ f.shape.records, P r) :
    ∀ r ∈ (g.absorbFields m fields).result.record.records, P r := by
  induction fields generalizing g with
  | nil => exact hg
  | cons f fields ih =>
    obtain ⟨hfirst, hrest⟩ := List.forall_mem_cons.mp hfields
    exact ih (forall_records_absorbField hP hm hg hfirst) hrest

theorem forall_records_absorb (hP : Record.Stable P)
    (hm : ∀ a b, Record.MergesWith P a b (m a b)) (hg : ∀ r ∈ g.record.records, P r)
    {sample : Record} (hsample : ∀ r ∈ sample.records, P r) :
    ∀ r ∈ (g.absorb m sample).result.record.records, P r :=
  forall_records_absorbFields (g := { g with examples := g.examples + 1 }) hP hm hg
    (Record.forall_mem_records.mp hsample).2

theorem sourceKeys_finish (g : Gathering) : g.finish.sourceKeys = g.record.sourceKeys :=
  map_withPresence _ (fun _ _ => rfl) ..

theorem identifiers_finish (g : Gathering) : g.finish.identifiers = g.record.identifiers :=
  map_withPresence _ (fun _ _ => rfl) ..

theorem forall_records_finish (hP : Record.Stable P) :
    (∀ r ∈ g.finish.records, P r) ↔ ∀ r ∈ g.record.records, P r := by
  have hkeys := sourceKeys_finish g
  have hidentifiers := identifiers_finish g
  have hinner : (∀ f ∈ g.finish.fields, ∀ r ∈ f.shape.records, P r) ↔
      ∀ f ∈ g.record.fields, ∀ r ∈ f.shape.records, P r :=
    forall_mem_withPresence (fun _ _ => Iff.rfl) ..
  have hown : P g.finish ↔ P g.record :=
    ⟨hP.congr hkeys hidentifiers, hP.congr hkeys.symm hidentifiers.symm⟩
  rw [Record.forall_mem_records, Record.forall_mem_records, hown, hinner]

end Gathering

namespace Record

theorem Stable.mergeWith (hP : Stable P) (hm : ∀ a b, MergesWith P a b (m a b)) (a b : Record) :
    MergesWith P a b (mergeWith m a b) := by
  intro ha hb
  have hstart : ∀ r ∈ (Gathering.start a.name).record.records, P r :=
    forall_mem_records.mpr ⟨hP.empty a.name, fun _ hf => absurd hf List.not_mem_nil⟩
  have hfirst := Gathering.forall_records_absorb hP hm hstart ha
  have hsecond := Gathering.forall_records_absorb hP hm hfirst hb
  exact (Gathering.forall_records_finish hP).mpr hsecond

/-- A stable property that two records have at every depth holds at every depth of their merge. -/
theorem Stable.merge (hP : Stable P) (a b : Record) : MergesWith P a b (merge a b) := by
  refine merge_induction (fun a _ => pure a) ?_ (fun m hm => hP.mergeWith hm) a b
  intro a b ha _
  exact ha

theorem stable_keys : Stable fun r => r.sourceKeys.Nodup where
  empty _ := List.nodup_nil
  add {r} f hr hkey := by
    rw [sourceKeys, Record.add, List.map_append, List.map_singleton, ← List.concat_eq_append]
    exact hr.concat hkey
  congr hkeys _ hr := hkeys ▸ hr

theorem nodup_identifiers_add {r : Record} (h : r.identifiers.Nodup) (f : Field) :
    (r.add f).1.identifiers.Nodup := by
  have hfree : (r.renamed f).identifier ∉ r.identifiers := Fresh.name_not_mem _ _
  rw [identifiers, add, List.map_append, List.map_singleton, ← List.concat_eq_append]
  exact h.concat hfree

theorem stable_identifiers : Stable fun r => r.identifiers.Nodup where
  empty _ := List.nodup_nil
  add f hr _ := nodup_identifiers_add hr f
  congr _ hidentifiers hr := hidentifiers ▸ hr

end Record

/-! Inference -/

/-- No record of the list has two fields of one identifier. -/
def IdentifiersNodup (records : List Record) : Prop :=
  ∀ r ∈ records, r.identifiers.Nodup

theorem identifiersNodup_nil : IdentifiersNodup [] :=
  forall_mem_nil_records

theorem Record.identifiersNodup_empty (name : String) : IdentifiersNodup (empty name).records :=
  forall_mem_records.mpr ⟨List.nodup_nil, fun _ hf => absurd hf List.not_mem_nil⟩

theorem Record.identifiersNodup_add {r : Record} {f : Field} (hr : IdentifiersNodup r.records)
    (hf : IdentifiersNodup f.shape.records) : IdentifiersNodup (r.add f).1.records := by
  obtain ⟨hown, hinner⟩ := forall_mem_records.mp hr
  refine forall_mem_records.mpr ⟨nodup_identifiers_add hown f, ?_⟩
  exact List.forall_mem_append.mpr ⟨hinner, List.forall_mem_singleton.mpr hf⟩

theorem Shape.identifiersNodup_ofJoinedElements (key : String) {joined : Option Shape}
    (h : ∀ a, joined = some a → IdentifiersNodup a.records) :
    IdentifiersNodup (ofJoinedElements key joined).result.records := by
  cases joined with
  | none => exact identifiersNodup_nil
  | some a =>
    have ha := h a rfl
    cases a <;> exact ha

namespace Value

/-- What inference finds for the inside of a value has distinct identifiers. -/
def NamedApart (initialisms : Initialisms) : Value → Prop
  | .object members => ∀ name,
    IdentifiersNodup (Record.ofObject initialisms name members).result.records
  | .array elements => ∀ key name,
    IdentifiersNodup (Shape.ofElements initialisms key name elements).result.records
  | _ => True

theorem NamedApart.ofValue {v : Value} (h : v.NamedApart initialisms) (key name : String) :
    IdentifiersNodup (Shape.ofValue initialisms key name v).result.records := by
  cases v with
  | object members => exact h name
  | array elements => exact h key name
  | _ => exact identifiersNodup_nil

theorem NamedApart.ofElement? {v : Value} (h : v.NamedApart initialisms) (key name : String)
    {a : Shape} (ha : (Shape.ofElement? initialisms key name v).result = some a) :
    IdentifiersNodup a.records := by
  cases v with
  | object members => contradiction
  | array elements =>
    obtain rfl := Option.some.inj ha
    exact h key name
  | _ =>
    obtain rfl := Option.some.inj ha
    exact identifiersNodup_nil

/-- Members become fields, one after another. -/
theorem identifiersNodup_addMembers {members : List (String × Value)} {r : Record}
    (h : ∀ m ∈ members, m.2.NamedApart initialisms) (hr : IdentifiersNodup r.records) :
    IdentifiersNodup (Record.addMembers initialisms r members).result.records := by
  induction members generalizing r with
  | nil => exact hr
  | cons m members ih =>
    obtain ⟨hm, hrest⟩ := List.forall_mem_cons.mp h
    obtain ⟨key, v⟩ := m
    rw [Record.addMembers, Reported.result_bind, Reported.result_bind]
    refine ih hrest ?_
    rw [Record.result_addReporting]
    exact Record.identifiersNodup_add hr (hm.ofValue key _)

/-- Elements after those that have been joined so far. -/
theorem identifiersNodup_joinElements {rest : List Value} {key name : String}
    (h : ∀ v ∈ rest, v.NamedApart initialisms) {a b : Shape} (ha : IdentifiersNodup a.records)
    (hb : (Shape.joinElements initialisms key name a rest).result = some b) :
    IdentifiersNodup b.records := by
  induction rest generalizing a with
  | nil =>
    obtain rfl := Option.some.inj hb
    exact ha
  | cons v rest ih =>
    obtain ⟨hv, hrest⟩ := List.forall_mem_cons.mp h
    rw [Shape.joinElements, Reported.result_bind] at hb
    cases hdescribed : (Shape.ofElement? initialisms key name v).result with
    | none =>
      rw [hdescribed] at hb
      contradiction
    | some other =>
      rw [hdescribed] at hb
      dsimp only at hb
      cases hjoin : a.elementJoin? Record.merge other with
      | none =>
        rw [hjoin] at hb
        contradiction
      | some joined =>
        rw [hjoin] at hb
        have hother := hv.ofElement? key name hdescribed
        have hjoined := Shape.forall_records_elementJoin? Record.stable_identifiers.merge ha hother
          hjoin
        exact ih hrest hjoined hb

/-- Objects are taken in one after another. -/
theorem identifiersNodup_ofObjects {values : List Value}
    (h : ∀ v ∈ values, v.NamedApart initialisms) {g : Gathering}
    (hg : IdentifiersNodup g.record.records) :
    IdentifiersNodup (Gathering.ofObjects initialisms g values).result.record.records := by
  induction values generalizing g with
  | nil => exact hg
  | cons v values ih =>
    obtain ⟨hv, hrest⟩ := List.forall_mem_cons.mp h
    rw [Gathering.ofObjects, Reported.result_bind]
    refine ih hrest ?_
    cases v with
    | object members =>
      exact Gathering.forall_records_absorb Record.stable_identifiers
        Record.stable_identifiers.merge hg (hv g.record.name)
    | _ => exact hg

theorem namedApart_array {elements : List Value}
    (h : ∀ v ∈ elements, v.NamedApart initialisms) : (array elements).NamedApart initialisms := by
  intro key name
  cases elements with
  | nil => exact identifiersNodup_nil
  | cons first rest =>
    rw [Shape.ofElements]
    split
    · have hstart : IdentifiersNodup (Gathering.start name).record.records :=
        Record.identifiersNodup_empty name
      exact (Gathering.forall_records_finish Record.stable_identifiers).mpr
        (identifiersNodup_ofObjects h hstart)
    · obtain ⟨hfirst, hrest⟩ := List.forall_mem_cons.mp h
      rw [Reported.result_bind]
      cases hdescribed : (Shape.ofElement? initialisms key name first).result with
      | none => exact Shape.identifiersNodup_ofJoinedElements key fun a ha => by contradiction
      | some a =>
        have ha := hfirst.ofElement? key name hdescribed
        exact Shape.identifiersNodup_ofJoinedElements key fun b hb =>
          identifiersNodup_joinElements hrest ha hb

/-- Inference gives distinct identifiers to the fields of every record. -/
theorem namedApart (initialisms : Initialisms) (v : Value) : v.NamedApart initialisms := by
  induction v using Value.induct with
  | hobject members ih =>
    exact fun name => identifiersNodup_addMembers ih (Record.identifiersNodup_empty name)
  | harray elements ih => exact namedApart_array ih
  | hscalar v hv => cases v <;> trivial

end Value

end Exemplar
