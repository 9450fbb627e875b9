import Exemplar.Inference
import Exemplar.Proofs.MergeSteps
import Exemplar.Proofs.Records
import Exemplar.Proofs.Values

/-!
# No alarm without a gap

An alarm says that some values have no shape of their own. Whatever raises one leaves a gap: a
shape that takes anything, or arrays of anything. A gap is never closed again, since no join has a
precise result unless both sides were precise. So a precise result was found without any alarm.
-/

namespace Exemplar

/-- Whether an event says that values have no common shape, or none at all. -/
def Event.isAlarm : Event → Bool
  | typeConflict .. | heterogeneousArray _ | emptyArray _ => true
  | _ => false

/-- No event is an alarm. -/
def Quiet (events : List Event) : Prop :=
  ∀ e ∈ events, e.isAlarm = false

theorem quiet_nil : Quiet [] := fun _ he => absurd he List.not_mem_nil

theorem quiet_append {events events' : List Event} :
    Quiet (events ++ events') ↔ Quiet events ∧ Quiet events' :=
  List.forall_mem_append

/-- Whether a shape takes anything, or arrays of anything, not counting the records in it. -/
def Shape.isOpen : Shape → Bool
  | .any | .anySlice => true
  | .slice element => element.isOpen
  | .scalar _ | .struct _ | .structSlice _ => false

/-- No shape is open, at any depth of a record. -/
def Record.Precise (r : Record) : Prop :=
  ∀ inner ∈ r.records, ∀ f ∈ inner.fields, f.shape.isOpen = false

structure Shape.Precise (a : Shape) : Prop where
  closed : a.isOpen = false
  inner : ∀ r ∈ a.records, ∀ f ∈ r.fields, f.shape.isOpen = false

/-- Neither `any` nor `anySlice` occurs anywhere in a root. -/
def Root.Precise : Root → Prop
  | .record r => r.Precise
  | .slice _ shape => shape.Precise

theorem Record.precise_iff {r : Record} : r.Precise ↔ ∀ f ∈ r.fields, f.shape.Precise := by
  rw [Record.Precise, Record.forall_mem_records]
  constructor
  · rintro ⟨hown, hinner⟩ f hf
    exact ⟨hown f hf, hinner f hf⟩
  · intro h
    exact ⟨fun f hf => (h f hf).closed, fun f hf => (h f hf).inner⟩

namespace Shape

theorem precise_scalar (kind : ScalarKind) : (scalar kind).Precise :=
  ⟨rfl, fun _ hr => absurd hr List.not_mem_nil⟩

theorem not_precise_any : ¬any.Precise := fun h => absurd h.closed (by decide)

theorem not_precise_anySlice : ¬anySlice.Precise := fun h => absurd h.closed (by decide)

theorem precise_struct_iff {r : Record} : (struct r).Precise ↔ r.Precise :=
  ⟨fun h => h.inner, fun h => ⟨rfl, h⟩⟩

theorem precise_structSlice_iff {r : Record} : (structSlice r).Precise ↔ r.Precise :=
  ⟨fun h => h.inner, fun h => ⟨rfl, h⟩⟩

theorem precise_slice_iff {element : Shape} : (slice element).Precise ↔ element.Precise :=
  ⟨fun h => ⟨h.closed, h.inner⟩, fun h => ⟨h.closed, h.inner⟩⟩

end Shape

/-! Joins and merges. -/

/-- A merge is faithful to both records if it is precise only where both are and raises no alarm
then. -/
def Record.MergeFaithful (a b : Record) (merged : Reported Record) : Prop :=
  merged.result.Precise → a.Precise ∧ b.Precise ∧ Quiet merged.events

variable {m : RecordMerge}

namespace Shape

theorem precise_of_elementJoin? (hm : ∀ a b, Record.MergeFaithful a b (m a b)) {a b : Shape}
    {r : Reported Shape} (h : a.elementJoin? m b = some r) (hr : r.result.Precise) :
    a.Precise ∧ b.Precise ∧ Quiet r.events := by
  fun_induction Shape.elementJoin? m a b generalizing r with
  | case1 kind =>
    obtain rfl := Option.some.inj h
    exact ⟨hr, hr, quiet_nil⟩
  | case2 => contradiction
  | case3 j k =>
    obtain ⟨kind, -, rfl⟩ := Option.map_eq_some_iff.mp h
    exact ⟨precise_scalar j, precise_scalar k, quiet_nil⟩
  | case4 a b ih =>
    obtain ⟨joined, hjoined, rfl⟩ := Option.map_eq_some_iff.mp h
    obtain ⟨ha, hb, hquiet⟩ := ih hjoined (precise_slice_iff.mp hr)
    rw [Reported.events_map]
    exact ⟨precise_slice_iff.mpr ha, precise_slice_iff.mpr hb, hquiet⟩
  | case5 a b =>
    obtain rfl := Option.some.inj h
    obtain ⟨ha, hb, hquiet⟩ := hm a b (precise_structSlice_iff.mp hr)
    rw [Reported.events_map]
    exact ⟨precise_structSlice_iff.mpr ha, precise_structSlice_iff.mpr hb, hquiet⟩
  | case6 => contradiction

theorem precise_of_joinStep (hm : ∀ a b, Record.MergeFaithful a b (m a b)) {a b : Shape}
    {r : Reported Shape} (h : JoinStep m a b r) (hr : r.result.Precise) :
    a.Precise ∧ b.Precise ∧ Quiet r.events := by
  cases h with
  | left h =>
    rcases h with rfl | rfl | rfl
    · exact absurd hr not_precise_any
    · exact absurd hr not_precise_anySlice
    · exact ⟨hr, precise_scalar _, quiet_nil⟩
  | right h =>
    rcases h with rfl | rfl | rfl
    · exact absurd hr not_precise_any
    · exact absurd hr not_precise_anySlice
    · exact ⟨precise_scalar _, hr, quiet_nil⟩
  | @kinds j k => exact ⟨precise_scalar j, precise_scalar k, quiet_nil⟩
  | structs a b =>
    obtain ⟨ha, hb, hquiet⟩ := hm a b (precise_struct_iff.mp hr)
    rw [Reported.events_map]
    exact ⟨precise_struct_iff.mpr ha, precise_struct_iff.mpr hb, hquiet⟩
  | structSlices a b =>
    obtain ⟨ha, hb, hquiet⟩ := hm a b (precise_structSlice_iff.mp hr)
    rw [Reported.events_map]
    exact ⟨precise_structSlice_iff.mpr ha, precise_structSlice_iff.mpr hb, hquiet⟩
  | slices hjoined =>
    obtain ⟨ha, hb, hquiet⟩ := precise_of_elementJoin? hm hjoined (precise_slice_iff.mp hr)
    rw [Reported.events_map]
    exact ⟨precise_slice_iff.mpr ha, precise_slice_iff.mpr hb, hquiet⟩

end Shape

theorem Field.precise_of_merge (hm : ∀ a b, Record.MergeFaithful a b (m a b)) (record : String)
    {f g : Field} (h : (f.merge m record g).result.shape.Precise) :
    f.shape.Precise ∧ g.shape.Precise ∧ Quiet (f.merge m record g).events := by
  have hstep := Field.mergeStep m record f g
  generalize (f.merge m record g).result.shape = merged at hstep h
  generalize (f.merge m record g).events = reported at hstep ⊢
  cases hstep with
  | joined hjoin => exact Shape.precise_of_joinStep hm hjoin h
  | slices => exact absurd h Shape.not_precise_anySlice
  | conflict => exact absurd h Shape.not_precise_any

/-- A field is added with its shape, and a new identifier is no alarm. -/
theorem Record.precise_of_addReporting {r : Record} {f : Field}
    (h : ∀ g ∈ (r.addReporting f).result.fields, g.shape.Precise) :
    (∀ g ∈ r.fields, g.shape.Precise) ∧ f.shape.Precise ∧ Quiet (r.addReporting f).events := by
  rcases r.addReporting_cases f with ⟨hresult, hevents⟩ | ⟨_, -, -, hresult, hevents⟩
  all_goals
    rw [hresult, List.forall_mem_append] at h
    have hf := h.2 _ (List.mem_singleton.mpr rfl)
    rw [hevents]
    refine ⟨h.1, hf, ?_⟩
    simp [Quiet, Event.isAlarm]

namespace Gathering

theorem precise_of_mergeInto? (hm : ∀ a b, Record.MergeFaithful a b (m a b)) {record : String}
    {incoming : Field} {fields : List Field} {r : Reported (List Field)}
    (h : mergeInto? m record incoming fields = some r) (hr : ∀ f ∈ r.result, f.shape.Precise) :
    (∀ f ∈ fields, f.shape.Precise) ∧ incoming.shape.Precise ∧ Quiet r.events := by
  induction fields generalizing r with
  | nil => contradiction
  | cons f fields ih =>
    rw [mergeInto?] at h
    by_cases hkey : f.sourceKey = incoming.sourceKey
    · rw [if_pos hkey] at h
      obtain rfl := Option.some.inj h
      rw [Reported.result_map, List.forall_mem_cons] at hr
      obtain ⟨hf, hincoming, hquiet⟩ := Field.precise_of_merge hm record hr.1
      rw [Reported.events_map]
      exact ⟨List.forall_mem_cons.mpr ⟨hf, hr.2⟩, hincoming, hquiet⟩
    · rw [if_neg hkey] at h
      obtain ⟨merged, hmerged, rfl⟩ := Option.map_eq_some_iff.mp h
      rw [Reported.result_map, List.forall_mem_cons] at hr
      obtain ⟨hfields, hincoming, hquiet⟩ := ih hmerged hr.2
      rw [Reported.events_map]
      exact ⟨List.forall_mem_cons.mpr ⟨hr.1, hfields⟩, hincoming, hquiet⟩

theorem precise_of_absorbField (hm : ∀ a b, Record.MergeFaithful a b (m a b)) {g : Gathering}
    {f : Field} (h : ∀ f' ∈ (g.absorbField m f).result.record.fields, f'.shape.Precise) :
    (∀ f' ∈ g.record.fields, f'.shape.Precise) ∧ f.shape.Precise ∧
      Quiet (g.absorbField m f).events := by
  rw [absorbField] at h ⊢
  cases hmerge : mergeInto? m g.record.name f g.record.fields with
  | some merged =>
    rw [hmerge] at h
    rw [Reported.events_bind, Reported.events_pure, List.append_nil]
    exact precise_of_mergeInto? hm hmerge h
  | none =>
    rw [hmerge] at h
    rw [Reported.events_bind, Reported.events_pure, List.append_nil]
    exact Record.precise_of_addReporting h

theorem precise_of_absorbFields (hm : ∀ a b, Record.MergeFaithful a b (m a b)) {g : Gathering}
    {fields : List Field}
    (h : ∀ f ∈ (g.absorbFields m fields).result.record.fields, f.shape.Precise) :
    (∀ f ∈ g.record.fields, f.shape.Precise) ∧ (∀ f ∈ fields, f.shape.Precise) ∧
      Quiet (g.absorbFields m fields).events := by
  induction fields generalizing g with
  | nil => exact ⟨h, fun _ hf => absurd hf List.not_mem_nil, quiet_nil⟩
  | cons f fields ih =>
    obtain ⟨hstep, hrest, hquiet'⟩ := ih h
    obtain ⟨hg, hf, hquiet⟩ := precise_of_absorbField hm hstep
    rw [absorbFields, Reported.events_bind, quiet_append]
    exact ⟨hg, List.forall_mem_cons.mpr ⟨hf, hrest⟩, hquiet, hquiet'⟩

theorem precise_of_absorb (hm : ∀ a b, Record.MergeFaithful a b (m a b)) {g : Gathering}
    {sample : Record}
    (h : ∀ f ∈ (g.absorb m sample).result.record.fields, f.shape.Precise) :
    (∀ f ∈ g.record.fields, f.shape.Precise) ∧ sample.Precise ∧
      Quiet (g.absorb m sample).events := by
  obtain ⟨hg, hsample, hquiet⟩ :=
    precise_of_absorbFields hm (g := { g with examples := g.examples + 1 }) h
  exact ⟨hg, Record.precise_iff.mpr hsample, hquiet⟩

theorem precise_of_finish {g : Gathering} (h : g.finish.Precise) :
    ∀ f ∈ g.record.fields, f.shape.Precise :=
  (forall_mem_withPresence (fun _ _ => Iff.rfl) ..).mp (Record.precise_iff.mp h)

end Gathering

namespace Record

theorem mergeFaithful_mergeWith (hm : ∀ a b, MergeFaithful a b (m a b)) (a b : Record) :
    MergeFaithful a b (mergeWith m a b) := by
  intro h
  obtain ⟨hfirst, hb, hquiet'⟩ := Gathering.precise_of_absorb hm (Gathering.precise_of_finish h)
  obtain ⟨-, ha, hquiet⟩ := Gathering.precise_of_absorb hm hfirst
  refine ⟨ha, hb, ?_⟩
  rw [mergeWith, Reported.events_bind, Reported.events_bind, quiet_append, quiet_append]
  exact ⟨hquiet, hquiet', quiet_nil⟩

/-- A record with a gap, which no precise record is merged to. -/
private def gap (name : String) : Record := ⟨name, [Field.plain "" "" .any]⟩

private theorem not_precise_gap (name : String) : ¬(gap name).Precise := by
  intro h
  have hfield := precise_iff.mp h (Field.plain "" "" .any) (List.mem_singleton.mpr rfl)
  exact Shape.not_precise_any hfield

theorem mergeFaithful_merge (a b : Record) : MergeFaithful a b (merge a b) := by
  refine merge_induction (fun a _ => pure (gap a.name)) ?_
    (fun m hm => mergeFaithful_mergeWith hm) a b
  exact fun a _ h => absurd h (not_precise_gap a.name)

end Record

/-! Inference. -/

theorem quiet_reportPromotion (key : String) (kind : ScalarKind) :
    Quiet (reportPromotion key kind).events := by
  cases kind <;> simp [Quiet, reportPromotion, Reported.report, Event.isAlarm]

/-- If the shape of an array is precise, its elements have a precise shape, and no alarm is raised
for them now. -/
theorem Shape.precise_of_ofJoinedElements {key : String} {joined : Option Shape}
    (h : (ofJoinedElements key joined).result.Precise) :
    (∃ a, joined = some a ∧ a.Precise) ∧ Quiet (ofJoinedElements key joined).events := by
  cases joined with
  | none => exact absurd h not_precise_anySlice
  | some a =>
    cases a with
    | anySlice => exact absurd h not_precise_anySlice
    | scalar kind =>
      refine ⟨⟨_, rfl, precise_scalar kind⟩, ?_⟩
      rw [ofJoinedElements, Reported.events_bind, quiet_append]
      exact ⟨quiet_reportPromotion key kind, quiet_nil⟩
    | _ => exact ⟨⟨_, rfl, precise_slice_iff.mp h⟩, quiet_nil⟩

namespace Value

variable {initialisms : Initialisms} {key name : String}

/-- If inference finds something precise inside a value, it raises no alarm. -/
def Faithful (initialisms : Initialisms) : Value → Prop
  | .object members => ∀ name,
    (Record.ofObject initialisms name members).result.Precise →
      Quiet (Record.ofObject initialisms name members).events
  | .array elements => ∀ key name,
    (Shape.ofElements initialisms key name elements).result.Precise →
      Quiet (Shape.ofElements initialisms key name elements).events
  | _ => True

theorem Faithful.ofValue {v : Value} (hv : v.Faithful initialisms)
    (h : (Shape.ofValue initialisms key name v).result.Precise) :
    Quiet (Shape.ofValue initialisms key name v).events := by
  have hscalar : ∀ kind, Quiet ((reportPromotion key kind).events ++ []) := fun kind =>
    quiet_append.mpr ⟨quiet_reportPromotion key kind, quiet_nil⟩
  cases v with
  | object members =>
    rw [Shape.ofValue, Reported.events_map]
    exact hv name (Shape.precise_struct_iff.mp h)
  | array elements => exact hv key name h
  | _ => exact hscalar _

theorem Faithful.ofElement? {v : Value} (hv : v.Faithful initialisms) {a : Shape}
    (h : (Shape.ofElement? initialisms key name v).result = some a) (ha : a.Precise) :
    Quiet (Shape.ofElement? initialisms key name v).events := by
  cases v with
  | object members => contradiction
  | array elements =>
    obtain rfl := Option.some.inj h
    rw [Shape.ofElement?, Reported.events_map]
    exact hv key name ha
  | _ => exact quiet_nil

theorem precise_of_addMembers {members : List (String × Value)}
    (hmembers : ∀ m ∈ members, m.2.Faithful initialisms) {r : Record}
    (h : ∀ f ∈ (Record.addMembers initialisms r members).result.fields, f.shape.Precise) :
    (∀ f ∈ r.fields, f.shape.Precise) ∧
      Quiet (Record.addMembers initialisms r members).events := by
  induction members generalizing r with
  | nil => exact ⟨h, quiet_nil⟩
  | cons m members ih =>
    obtain ⟨hm, hrest⟩ := List.forall_mem_cons.mp hmembers
    obtain ⟨key, v⟩ := m
    obtain ⟨hadded, hquiet⟩ := ih hrest h
    obtain ⟨hr, hf, hquiet'⟩ := Record.precise_of_addReporting hadded
    rw [Record.addMembers, Reported.events_bind, Reported.events_bind, quiet_append, quiet_append]
    exact ⟨hr, hm.ofValue hf, hquiet', hquiet⟩

theorem precise_of_joinElements {rest : List Value}
    (hrest : ∀ v ∈ rest, v.Faithful initialisms) {a b : Shape}
    (h : (Shape.joinElements initialisms key name a rest).result = some b) (hb : b.Precise) :
    a.Precise ∧ Quiet (Shape.joinElements initialisms key name a rest).events := by
  induction rest generalizing a with
  | nil =>
    obtain rfl := Option.some.inj h
    exact ⟨hb, quiet_nil⟩
  | cons v rest ih =>
    obtain ⟨hv, hrest⟩ := List.forall_mem_cons.mp hrest
    rw [Shape.joinElements, Reported.result_bind] at h
    rw [Shape.joinElements, Reported.events_bind, quiet_append]
    cases hdescribed : (Shape.ofElement? initialisms key name v).result with
    | none =>
      rw [hdescribed] at h
      contradiction
    | some other =>
      rw [hdescribed] at h
      dsimp only at h ⊢
      cases hjoin : a.elementJoin? Record.merge other with
      | none =>
        rw [hjoin] at h
        contradiction
      | some joined =>
        rw [hjoin] at h
        obtain ⟨hjoined, hquiet⟩ := ih hrest h
        obtain ⟨ha, hother, hquiet'⟩ :=
          Shape.precise_of_elementJoin? Record.mergeFaithful_merge hjoin hjoined
        dsimp only
        rw [Reported.events_bind, quiet_append]
        exact ⟨ha, hv.ofElement? hdescribed hother, hquiet', hquiet⟩

theorem precise_of_ofObjects {values : List Value}
    (hvalues : ∀ v ∈ values, v.Faithful initialisms) {g : Gathering}
    (h : ∀ f ∈ (Gathering.ofObjects initialisms g values).result.record.fields,
      f.shape.Precise) :
    (∀ f ∈ g.record.fields, f.shape.Precise) ∧
      Quiet (Gathering.ofObjects initialisms g values).events := by
  induction values generalizing g with
  | nil => exact ⟨h, quiet_nil⟩
  | cons v values ih =>
    obtain ⟨hv, hrest⟩ := List.forall_mem_cons.mp hvalues
    obtain ⟨hstep, hquiet⟩ := ih hrest h
    rw [Gathering.ofObjects, Reported.events_bind, quiet_append]
    cases v with
    | object members =>
      obtain ⟨hg, hsample, hquiet'⟩ :=
        Gathering.precise_of_absorb Record.mergeFaithful_merge hstep
      refine ⟨hg, ?_, hquiet⟩
      rw [Gathering.ofObject, Reported.events_bind, quiet_append]
      exact ⟨hv _ hsample, hquiet'⟩
    | _ => exact ⟨hstep, quiet_nil, hquiet⟩

theorem faithful_array {elements : List Value} (h : ∀ v ∈ elements, v.Faithful initialisms) :
    (array elements).Faithful initialisms := by
  intro key name hprecise
  cases elements with
  | nil => exact absurd hprecise Shape.not_precise_anySlice
  | cons first rest =>
    rw [Shape.ofElements] at hprecise ⊢
    split at hprecise
    · next hobjects =>
      rw [if_pos hobjects]
      have hfinish := Gathering.precise_of_finish (Shape.precise_structSlice_iff.mp hprecise)
      obtain ⟨-, hquiet⟩ := precise_of_ofObjects (g := Gathering.start name) h hfinish
      simpa [Gathering.ofObjects] using hquiet
    · next hobjects =>
      rw [if_neg hobjects]
      obtain ⟨hfirst, hrest⟩ := List.forall_mem_cons.mp h
      rw [Reported.result_bind] at hprecise
      rw [Reported.events_bind, quiet_append]
      cases hdescribed : (Shape.ofElement? initialisms key name first).result with
      | none =>
        rw [hdescribed] at hprecise
        exact absurd hprecise Shape.not_precise_anySlice
      | some a =>
        rw [hdescribed] at hprecise
        obtain ⟨⟨b, hb, hbprecise⟩, hquiet⟩ := Shape.precise_of_ofJoinedElements hprecise
        obtain ⟨ha, hquiet'⟩ := precise_of_joinElements hrest hb hbprecise
        dsimp only
        rw [Reported.events_bind, quiet_append]
        exact ⟨hfirst.ofElement? hdescribed ha, hquiet', hquiet⟩

theorem faithful (initialisms : Initialisms) (v : Value) : v.Faithful initialisms := by
  induction v using Value.induct with
  | hobject members ih =>
    intro name hprecise
    exact (precise_of_addMembers ih (Record.precise_iff.mp hprecise)).2
  | harray elements ih => exact faithful_array ih
  | hscalar v hv => cases v <;> trivial

end Value

end Exemplar
