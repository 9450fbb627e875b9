import Exemplar.Inference
import Exemplar.Proofs.Freshness
import Exemplar.Proofs.MergeSteps
import Exemplar.Proofs.Records

/-!
# Fields are accounted for by events

A field that says less than its values, or bears another identifier than its key suggests, is
accounted for by an event that was reported on the way to it. Joins and merges keep fields
accounted for: the events before them stay, and they report what they give up themselves. This
holds at every depth, whatever is merged; that inference starts from such fields is shown elsewhere.
-/

namespace Exemplar

/-- Whether numbers of a kind need more than 64 bits. -/
def ScalarKind.isBig : ScalarKind → Bool
  | bigInteger | bigFloat => true
  | _ => false

/-- What a shape gives up by itself was reported for its key; a record in it has the given name. -/
def Shape.Backed (events : List Event) (record key name : String) : Shape → Prop
  | .scalar kind => kind.isBig → Event.numericPromotion key kind ∈ events
  | .struct r | .structSlice r => r.name = name
  | .slice element => element.Backed events record key name
  | .anySlice => Event.emptyArray key ∈ events ∨ Event.heterogeneousArray key ∈ events
  | .any => ∃ existing incoming, Event.typeConflict record key existing incoming ∈ events

/-- The same for a field of a record. Its identifier comes from its key; a number may follow, and
was reported. -/
structure Field.Backed (initialisms : Initialisms) (events : List Event) (record : String)
    (f : Field) : Prop where
  shape : f.shape.Backed events record f.sourceKey (Identifier.ofKey initialisms f.sourceKey)
  numbered : ∃ digits : List Char, (∀ c ∈ digits, c.isDigit) ∧
    f.identifier = Identifier.ofKey initialisms f.sourceKey ++ String.ofList digits
  renamed : f.identifier ≠ Identifier.ofKey initialisms f.sourceKey →
    Event.identifierCollision record f.sourceKey f.identifier ∈ events

/-- The same for all fields of a record, but not for the records inside them. -/
def Record.Backed (initialisms : Initialisms) (events : List Event) (r : Record) : Prop :=
  ∀ f ∈ r.fields, f.Backed initialisms events r.name

/-- A record is accounted for if its fields are backed at every depth. -/
def Record.Accounted (initialisms : Initialisms) (events : List Event) (r : Record) : Prop :=
  ∀ inner ∈ r.records, inner.Backed initialisms events

structure Shape.Accounted (initialisms : Initialisms) (events : List Event)
    (record key name : String) (a : Shape) : Prop where
  backed : a.Backed events record key name
  inner : ∀ r ∈ a.records, r.Backed initialisms events

structure Field.Accounted (initialisms : Initialisms) (events : List Event) (record : String)
    (f : Field) : Prop where
  backed : f.Backed initialisms events record
  inner : ∀ r ∈ f.shape.records, r.Backed initialisms events

variable {initialisms : Initialisms} {events events' : List Event} {record key name : String}

theorem Record.accounted_iff {r : Record} :
    r.Accounted initialisms events ↔ ∀ f ∈ r.fields, f.Accounted initialisms events r.name := by
  rw [Record.Accounted, Record.forall_mem_records]
  constructor
  · rintro ⟨hown, hinner⟩ f hf
    exact ⟨hown f hf, hinner f hf⟩
  · intro h
    exact ⟨fun f hf => (h f hf).backed, fun f hf => (h f hf).inner⟩

/-! Further events do no harm. -/

theorem Shape.Backed.mono (h : events ⊆ events') : ∀ {a : Shape},
    a.Backed events record key name → a.Backed events' record key name
  | .scalar _, ha => fun hbig => h (ha hbig)
  | .struct _, ha | .structSlice _, ha => ha
  | .slice element, ha => Shape.Backed.mono (a := element) h ha
  | .anySlice, ha => ha.imp (fun he => h he) fun he => h he
  | .any, ⟨existing, incoming, he⟩ => ⟨existing, incoming, h he⟩

theorem Field.Backed.mono (h : events ⊆ events') {f : Field}
    (hf : f.Backed initialisms events record) : f.Backed initialisms events' record where
  shape := hf.shape.mono h
  numbered := hf.numbered
  renamed hne := h (hf.renamed hne)

theorem Record.Backed.mono (h : events ⊆ events') {r : Record}
    (hr : r.Backed initialisms events) : r.Backed initialisms events' :=
  fun f hf => (hr f hf).mono h

theorem Record.Accounted.mono (h : events ⊆ events') {r : Record}
    (hr : r.Accounted initialisms events) : r.Accounted initialisms events' :=
  fun inner hinner => (hr inner hinner).mono h

theorem Shape.Accounted.mono (h : events ⊆ events') {a : Shape}
    (ha : a.Accounted initialisms events record key name) :
    a.Accounted initialisms events' record key name :=
  ⟨ha.backed.mono h, fun r hr => (ha.inner r hr).mono h⟩

theorem Field.Accounted.mono (h : events ⊆ events') {f : Field}
    (hf : f.Accounted initialisms events record) : f.Accounted initialisms events' record :=
  ⟨hf.backed.mono h, fun r hr => (hf.inner r hr).mono h⟩

/-! The shapes of single values. -/

theorem Shape.accounted_of_promoted {kind : ScalarKind}
    (h : kind.isBig → Event.numericPromotion key kind ∈ events) :
    (Shape.scalar kind).Accounted initialisms events record key name :=
  ⟨h, fun _ hr => absurd hr List.not_mem_nil⟩

theorem Shape.accounted_anySlice
    (h : Event.emptyArray key ∈ events ∨ Event.heterogeneousArray key ∈ events) :
    Shape.anySlice.Accounted initialisms events record key name :=
  ⟨h, fun _ hr => absurd hr List.not_mem_nil⟩

theorem Shape.accounted_struct_iff {r : Record} :
    (Shape.struct r).Accounted initialisms events record key name ↔
      r.name = name ∧ r.Accounted initialisms events :=
  ⟨fun h => ⟨h.backed, h.inner⟩, fun h => ⟨h.1, h.2⟩⟩

theorem Shape.accounted_structSlice_iff {r : Record} :
    (Shape.structSlice r).Accounted initialisms events record key name ↔
      r.name = name ∧ r.Accounted initialisms events :=
  ⟨fun h => ⟨h.backed, h.inner⟩, fun h => ⟨h.1, h.2⟩⟩

theorem Shape.accounted_slice_iff {element : Shape} :
    (Shape.slice element).Accounted initialisms events record key name ↔
      element.Accounted initialisms events record key name :=
  ⟨fun h => ⟨h.backed, h.inner⟩, fun h => ⟨h.backed, h.inner⟩⟩

/-! Joins and merges. -/

/-- The merge of two records of one name is accounted for by the events of both and its own. -/
def Record.MergeAccounted (initialisms : Initialisms) (a b : Record) (merged : Reported Record) :
    Prop :=
  a.name = b.name → ∀ events, a.Accounted initialisms events → b.Accounted initialisms events →
    merged.result.name = a.name ∧
      merged.result.Accounted initialisms (events ++ merged.events)

theorem ScalarKind.eq_or_eq_of_join? {a b kind : ScalarKind} (h : a.join? b = some kind) :
    kind = a ∨ kind = b := by
  cases a <;> cases b <;> simp_all [ScalarKind.join?]

variable {m : RecordMerge}

namespace Shape

/-- The kind that two kinds join to is one of them, and was reported with that one. -/
theorem Accounted.join_scalar {j k kind : ScalarKind}
    (hj : (scalar j).Accounted initialisms events record key name)
    (hk : (scalar k).Accounted initialisms events record key name) (h : j.join? k = some kind) :
    (scalar kind).Accounted initialisms events record key name := by
  rcases ScalarKind.eq_or_eq_of_join? h with rfl | rfl
  · exact hj
  · exact hk

theorem Accounted.elementJoin? (hm : ∀ a b, Record.MergeAccounted initialisms a b (m a b))
    {a b : Shape} (ha : a.Accounted initialisms events record key name)
    (hb : b.Accounted initialisms events record key name) {r : Reported Shape}
    (h : a.elementJoin? m b = some r) :
    r.result.Accounted initialisms (events ++ r.events) record key name := by
  fun_induction Shape.elementJoin? m a b generalizing r with
  | case1 kind =>
    obtain rfl := Option.some.inj h
    exact ha.mono (List.subset_append_left _ _)
  | case2 => contradiction
  | case3 j k hne hnull =>
    obtain ⟨kind, hkind, rfl⟩ := Option.map_eq_some_iff.mp h
    exact (ha.join_scalar hb hkind).mono (List.subset_append_left _ _)
  | case4 a b ih =>
    obtain ⟨joined, hjoined, rfl⟩ := Option.map_eq_some_iff.mp h
    have helement := ih (accounted_slice_iff.mp ha) (accounted_slice_iff.mp hb) hjoined
    rw [Reported.result_map, Reported.events_map]
    exact accounted_slice_iff.mpr helement
  | case5 a b =>
    obtain rfl := Option.some.inj h
    obtain ⟨hname, hra⟩ := accounted_structSlice_iff.mp ha
    obtain ⟨hname', hrb⟩ := accounted_structSlice_iff.mp hb
    obtain ⟨hmerged, haccounted⟩ := hm a b (hname.trans hname'.symm) events hra hrb
    rw [Reported.result_map, Reported.events_map]
    exact accounted_structSlice_iff.mpr ⟨hmerged.trans hname, haccounted⟩
  | case6 => contradiction

theorem Accounted.joinStep (hm : ∀ a b, Record.MergeAccounted initialisms a b (m a b))
    {a b : Shape} (ha : a.Accounted initialisms events record key name)
    (hb : b.Accounted initialisms events record key name) {r : Reported Shape}
    (h : JoinStep m a b r) :
    r.result.Accounted initialisms (events ++ r.events) record key name := by
  cases h with
  | left => exact ha.mono (List.subset_append_left _ _)
  | right => exact hb.mono (List.subset_append_left _ _)
  | kinds hkind => exact (ha.join_scalar hb hkind).mono (List.subset_append_left _ _)
  | structs a b =>
    obtain ⟨hname, hra⟩ := accounted_struct_iff.mp ha
    obtain ⟨hname', hrb⟩ := accounted_struct_iff.mp hb
    obtain ⟨hmerged, haccounted⟩ := hm a b (hname.trans hname'.symm) events hra hrb
    rw [Reported.result_map, Reported.events_map]
    exact accounted_struct_iff.mpr ⟨hmerged.trans hname, haccounted⟩
  | structSlices a b =>
    obtain ⟨hname, hra⟩ := accounted_structSlice_iff.mp ha
    obtain ⟨hname', hrb⟩ := accounted_structSlice_iff.mp hb
    obtain ⟨hmerged, haccounted⟩ := hm a b (hname.trans hname'.symm) events hra hrb
    rw [Reported.result_map, Reported.events_map]
    exact accounted_structSlice_iff.mpr ⟨hmerged.trans hname, haccounted⟩
  | slices hjoined =>
    have helement := Accounted.elementJoin? hm (accounted_slice_iff.mp ha)
      (accounted_slice_iff.mp hb) hjoined
    rw [Reported.result_map, Reported.events_map]
    exact accounted_slice_iff.mpr helement

end Shape

namespace Field

/-- A field may take another shape that is accounted for under its key. -/
theorem Accounted.withShape {f f' : Field} (hf : f.Accounted initialisms events record)
    (hkey : f'.sourceKey = f.sourceKey) (hidentifier : f'.identifier = f.identifier)
    (ha : f'.shape.Accounted initialisms events record f.sourceKey
      (Identifier.ofKey initialisms f.sourceKey)) : f'.Accounted initialisms events record where
  backed := by
    refine ⟨?_, ?_, ?_⟩
    · rw [hkey]
      exact ha.backed
    · rw [hkey, hidentifier]
      exact hf.backed.numbered
    · rw [hkey, hidentifier]
      exact hf.backed.renamed
  inner := ha.inner

theorem Accounted.merge (hm : ∀ a b, Record.MergeAccounted initialisms a b (m a b))
    {f g : Field} (hkey : f.sourceKey = g.sourceKey)
    (hf : f.Accounted initialisms events record) (hg : g.Accounted initialisms events record) :
    (f.merge m record g).result.Accounted initialisms (events ++ (f.merge m record g).events)
      record := by
  obtain ⟨hkey', hidentifier⟩ := Field.merge_frame m record f g
  have hbefore := hf.mono (List.subset_append_left events (f.merge m record g).events)
  refine hbefore.withShape hkey' hidentifier ?_
  have hstep := Field.mergeStep m record f g
  generalize (f.merge m record g).result.shape = merged at hstep ⊢
  generalize (f.merge m record g).events = reported at hstep ⊢
  cases hstep with
  | joined hjoin =>
    have hfshape : f.shape.Accounted initialisms events record f.sourceKey
        (Identifier.ofKey initialisms f.sourceKey) := ⟨hf.backed.shape, hf.inner⟩
    have hgshape : g.shape.Accounted initialisms events record f.sourceKey
        (Identifier.ofKey initialisms f.sourceKey) := hkey ▸ ⟨hg.backed.shape, hg.inner⟩
    exact hfshape.joinStep hm hgshape hjoin
  | slices => exact Shape.accounted_anySlice (Or.inr (by simp))
  | conflict =>
    refine ⟨⟨f.shape.label, g.shape.label, by simp⟩, ?_⟩
    exact fun _ hr => absurd hr List.not_mem_nil

end Field

/-- A field under a number stays accounted for once the new identifier is reported. -/
theorem Record.accounted_addReporting {r : Record} {f : Field}
    (hr : ∀ f ∈ r.fields, f.Accounted initialisms events r.name)
    (hf : f.Accounted initialisms events r.name) :
    ∀ f' ∈ (r.addReporting f).result.fields,
      f'.Accounted initialisms (events ++ (r.addReporting f).events) r.name := by
  have hbefore : ∀ {g : Field}, g.Accounted initialisms events r.name →
      g.Accounted initialisms (events ++ (r.addReporting f).events) r.name :=
    fun hg => hg.mono (List.subset_append_left _ _)
  rcases r.addReporting_cases f with ⟨hresult, -⟩ | ⟨identifier, -, hname, hresult, hevents⟩
  · intro f' hf'
    rw [hresult] at hf'
    rcases List.mem_append.mp hf' with hold | hnew
    · exact hbefore (hr f' hold)
    · rw [List.mem_singleton.mp hnew]
      exact hbefore hf
  · intro f' hf'
    rw [hresult] at hf'
    rcases List.mem_append.mp hf' with hold | hnew
    · exact hbefore (hr f' hold)
    · obtain rfl := List.mem_singleton.mp hnew
      have hshape := (hbefore hf).backed.shape
      refine ⟨⟨hshape, ?_, fun _ => ?_⟩, (hbefore hf).inner⟩
      · obtain ⟨digits, hdigits, hidentifier⟩ := hf.backed.numbered
        rcases Fresh.name_eq r.identifiers f.identifier with hsame | ⟨n, hn⟩
        · exact ⟨digits, hdigits, hname.trans (hsame.trans hidentifier)⟩
        · refine ⟨digits ++ (toString n).toList, ?_, ?_⟩
          · exact List.forall_mem_append.mpr ⟨hdigits, fun c => Fresh.isDigit_of_mem_toString⟩
          · rw [hname, hn, hidentifier, String.ofList_append, String.ofList_toList,
              String.append_assoc]
      · rw [hevents]
        simp

namespace Gathering

/-- The fields so far are accounted for. -/
def Accounted (initialisms : Initialisms) (events : List Event) (g : Gathering) : Prop :=
  ∀ f ∈ g.record.fields, f.Accounted initialisms events g.record.name

theorem accounted_start (events : List Event) (name : String) :
    (start name).Accounted initialisms events :=
  fun _ hf => absurd hf List.not_mem_nil

theorem accounted_mergeInto? (hm : ∀ a b, Record.MergeAccounted initialisms a b (m a b))
    {incoming : Field} {fields : List Field}
    (hfields : ∀ f ∈ fields, f.Accounted initialisms events record)
    (hincoming : incoming.Accounted initialisms events record) {r : Reported (List Field)}
    (h : mergeInto? m record incoming fields = some r) :
    ∀ f ∈ r.result, f.Accounted initialisms (events ++ r.events) record := by
  induction fields generalizing r with
  | nil => contradiction
  | cons f fields ih =>
    obtain ⟨hfirst, hrest⟩ := List.forall_mem_cons.mp hfields
    rw [mergeInto?] at h
    by_cases hkey : f.sourceKey = incoming.sourceKey
    · rw [if_pos hkey] at h
      obtain rfl := Option.some.inj h
      rw [Reported.result_map, Reported.events_map, List.forall_mem_cons]
      have hmono := List.subset_append_left events (f.merge m record incoming).events
      exact ⟨hfirst.merge hm hkey hincoming, fun g hg => (hrest g hg).mono hmono⟩
    · rw [if_neg hkey] at h
      obtain ⟨merged, hmerged, rfl⟩ := Option.map_eq_some_iff.mp h
      rw [Reported.result_map, Reported.events_map, List.forall_mem_cons]
      exact ⟨hfirst.mono (List.subset_append_left _ _), ih hrest hmerged⟩

/-- One field of an example. -/
theorem Accounted.absorbField (hm : ∀ a b, Record.MergeAccounted initialisms a b (m a b))
    {g : Gathering} (hg : g.Accounted initialisms events) {f : Field}
    (hf : f.Accounted initialisms events g.record.name) :
    (g.absorbField m f).result.Accounted initialisms (events ++ (g.absorbField m f).events) := by
  rw [Accounted, (absorbField_frame g f).1, Gathering.absorbField]
  cases hmerge : mergeInto? m g.record.name f g.record.fields with
  | some merged =>
    have hmerged := accounted_mergeInto? hm hg hf hmerge
    rw [Reported.events_bind, Reported.events_pure, List.append_nil]
    exact hmerged
  | none =>
    have hadded := Record.accounted_addReporting hg hf
    rw [Reported.events_bind, Reported.events_pure, List.append_nil]
    exact hadded

/-- All fields of an example. -/
theorem Accounted.absorbFields (hm : ∀ a b, Record.MergeAccounted initialisms a b (m a b))
    {g : Gathering} (hg : g.Accounted initialisms events) {fields : List Field}
    (hfields : ∀ f ∈ fields, f.Accounted initialisms events g.record.name) :
    (g.absorbFields m fields).result.Accounted initialisms
      (events ++ (g.absorbFields m fields).events) := by
  induction fields generalizing g events with
  | nil =>
    rw [Gathering.absorbFields, Reported.events_pure, List.append_nil]
    exact hg
  | cons f fields ih =>
    obtain ⟨hfirst, hrest⟩ := List.forall_mem_cons.mp hfields
    have hstep := hg.absorbField hm hfirst
    have hname := (absorbField_frame (m := m) g f).1
    have hih := ih hstep fun f' hf' => by
      rw [hname]
      exact (hrest f' hf').mono (List.subset_append_left _ _)
    rw [Gathering.absorbFields, Reported.events_bind, ← List.append_assoc]
    exact hih

theorem Accounted.absorb (hm : ∀ a b, Record.MergeAccounted initialisms a b (m a b))
    {g : Gathering} (hg : g.Accounted initialisms events) {sample : Record}
    (hname : sample.name = g.record.name) (hsample : sample.Accounted initialisms events) :
    (g.absorb m sample).result.Accounted initialisms (events ++ (g.absorb m sample).events) := by
  have hfields := Record.accounted_iff.mp hsample
  rw [hname] at hfields
  have hstart : Accounted initialisms events { g with examples := g.examples + 1 } := hg
  exact hstart.absorbFields hm hfields

/-- Counting examples changes only whether fields are optional. -/
theorem Accounted.finish {g : Gathering} (hg : g.Accounted initialisms events) :
    g.finish.Accounted initialisms events := by
  have hsame : ∀ (f : Field) (optional : Bool),
      Field.Accounted initialisms events g.record.name { f with optional } ↔
        f.Accounted initialisms events g.record.name := fun f optional =>
    ⟨fun h => h.withShape rfl rfl ⟨h.backed.shape, h.inner⟩,
      fun h => h.withShape rfl rfl ⟨h.backed.shape, h.inner⟩⟩
  exact Record.accounted_iff.mpr ((forall_mem_withPresence hsame ..).mpr hg)

end Gathering

namespace Record

/-- One round of merging is accounted for if the merges of inner records are. -/
theorem mergeAccounted_mergeWith (hm : ∀ a b, MergeAccounted initialisms a b (m a b))
    (a b : Record) : MergeAccounted initialisms a b (mergeWith m a b) := by
  intro hname events ha hb
  let first := (Gathering.start a.name).absorb m a
  have hfirst : first.result.Accounted initialisms (events ++ first.events) :=
    (Gathering.accounted_start events a.name).absorb hm rfl ha
  have hfirstName : first.result.record.name = a.name :=
    (Gathering.absorbFields_frame _ a.fields).1
  have hsecond := hfirst.absorb hm (hname.symm.trans hfirstName.symm)
    (hb.mono (List.subset_append_left events first.events))
  refine ⟨(Gathering.absorbFields_frame _ b.fields).1.trans hfirstName, ?_⟩
  have hevents : (mergeWith m a b).events =
      first.events ++ (first.result.absorb m b).events := by
    change first.events ++ ((first.result.absorb m b).events ++ []) = _
    rw [List.append_nil]
  rw [hevents, ← List.append_assoc]
  exact hsecond.finish

theorem mergeAccounted_merge (initialisms : Initialisms) (a b : Record) :
    MergeAccounted initialisms a b (merge a b) := by
  refine merge_induction (fun a _ => pure a) ?_ (fun m hm => mergeAccounted_mergeWith hm) a b
  intro a b _ events ha _
  exact ⟨rfl, ha.mono (List.subset_append_left _ _)⟩

end Record

end Exemplar
