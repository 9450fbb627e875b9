import Exemplar.Proofs.Accounts
import Exemplar.Proofs.Values

/-!
# Inference accounts for what it gives up

Whatever inference finds for a value is accounted for by the events it reports while it walks
through that value. The proof goes down the tree of the value; at each level the members, elements
and examples are followed one by one, and the events so far are carried along.
-/

namespace Exemplar

variable {initialisms : Initialisms} {events : List Event} {record key name : String}

theorem promotion_mem_reportPromotion (key : String) {kind : ScalarKind} (h : kind.isBig) :
    Event.numericPromotion key kind ∈ (reportPromotion key kind).events := by
  cases kind <;> first | contradiction | exact List.mem_singleton.mpr rfl

namespace Shape

/-- Scalar elements are accounted for only when the whole array is. -/
def AccountedElement (initialisms : Initialisms) (events : List Event)
    (record key name : String) (a : Shape) : Prop :=
  (∃ kind, a = .scalar kind) ∨ a.Accounted initialisms events record key name

theorem AccountedElement.mono {events' : List Event} (h : events ⊆ events') {a : Shape}
    (ha : a.AccountedElement initialisms events record key name) :
    a.AccountedElement initialisms events' record key name :=
  ha.imp_right fun hin => hin.mono h

theorem eq_scalar_of_elementJoin? {m : RecordMerge} {a b : Shape} {r : Reported Shape}
    (h : a.elementJoin? m b = some r) (hscalar : (∃ j, a = .scalar j) ∨ ∃ k, b = .scalar k) :
    ∃ kind, r.result = .scalar kind := by
  fun_cases Shape.elementJoin? m a b
  case case1 kind =>
    rw [elementJoin?, if_pos rfl] at h
    exact ⟨kind, by rw [← Option.some.inj h]; rfl⟩
  case case3 j k hne hnull =>
    rw [elementJoin?, if_neg hne, if_neg hnull] at h
    obtain ⟨kind, -, rfl⟩ := Option.map_eq_some_iff.mp h
    exact ⟨kind, rfl⟩
  all_goals simp_all [elementJoin?]

theorem AccountedElement.elementJoin? {a b : Shape}
    (ha : a.AccountedElement initialisms events record key name)
    (hb : b.AccountedElement initialisms events record key name) {r : Reported Shape}
    (h : a.elementJoin? Record.merge b = some r) :
    r.result.AccountedElement initialisms (events ++ r.events) record key name := by
  rcases ha with hj | ha
  · exact Or.inl (eq_scalar_of_elementJoin? h (Or.inl hj))
  rcases hb with hk | hb
  · exact Or.inl (eq_scalar_of_elementJoin? h (Or.inr hk))
  · exact Or.inr (ha.elementJoin? (Record.mergeAccounted_merge initialisms) hb h)

/-- The shape of an array is accounted for: a common kind of its elements is reported now, and so
is a missing common shape. -/
theorem accounted_ofJoinedElements {joined : Option Shape}
    (h : ∀ a, joined = some a → a.AccountedElement initialisms events record key name) :
    (ofJoinedElements key joined).result.Accounted initialisms
      (events ++ (ofJoinedElements key joined).events) record key name := by
  cases joined with
  | none => exact accounted_anySlice (Or.inr (by simp [ofJoinedElements, Reported.report]))
  | some a =>
    have ha := h a rfl
    cases a with
    | scalar kind =>
      refine accounted_slice_iff.mpr (accounted_of_promoted fun hbig => ?_)
      refine List.mem_append_right _ ?_
      rw [ofJoinedElements, Reported.events_bind]
      exact List.mem_append_left _ (promotion_mem_reportPromotion key hbig)
    | _ =>
      have ha' := ha.resolve_left (by simp)
      simp only [ofJoinedElements, Reported.result_pure, Reported.events_pure, List.append_nil]
      first | exact ha' | exact accounted_slice_iff.mpr ha'

end Shape

namespace Value

/-- What inference finds for the inside of a value is accounted for by the events it reports. -/
def Accounted (initialisms : Initialisms) : Value → Prop
  | .object members => ∀ name,
    (Record.ofObject initialisms name members).result.name = name ∧
      (Record.ofObject initialisms name members).result.Accounted initialisms
        (Record.ofObject initialisms name members).events
  | .array elements => ∀ record key name,
    (Shape.ofElements initialisms key name elements).result.Accounted initialisms
      (Shape.ofElements initialisms key name elements).events record key name
  | _ => True

theorem Accounted.ofValue {v : Value} (h : v.Accounted initialisms) (record key name : String) :
    (Shape.ofValue initialisms key name v).result.Accounted initialisms
      (Shape.ofValue initialisms key name v).events record key name := by
  have hscalar : ∀ kind, v.scalarKind? = some kind →
      (Shape.scalar kind).Accounted initialisms
        ((reportPromotion key kind).events ++ []) record key name := by
    intro kind _
    refine Shape.accounted_of_promoted fun hbig => ?_
    exact List.mem_append_left _ (promotion_mem_reportPromotion key hbig)
  cases v with
  | object members =>
    rw [Shape.ofValue, Reported.result_map, Reported.events_map]
    exact Shape.accounted_struct_iff.mpr (h name)
  | array elements => exact h record key name
  | _ => exact hscalar _ rfl

theorem Accounted.ofElement? {v : Value} (h : v.Accounted initialisms)
    (record key name : String) {a : Shape}
    (ha : (Shape.ofElement? initialisms key name v).result = some a) :
    a.AccountedElement initialisms (Shape.ofElement? initialisms key name v).events
      record key name := by
  cases v with
  | object members => contradiction
  | array elements =>
    rw [Shape.ofElement?, Reported.result_map] at ha
    obtain rfl := Option.some.inj ha
    rw [Shape.ofElement?, Reported.events_map]
    exact Or.inr (h record key name)
  | _ => exact Or.inl ⟨_, (Option.some.inj ha).symm⟩

/-- Members become fields, one after another. -/
theorem accounted_addMembers {members : List (String × Value)} {r : Record}
    (h : ∀ m ∈ members, m.2.Accounted initialisms)
    (hr : ∀ f ∈ r.fields, f.Accounted initialisms events r.name) :
    (Record.addMembers initialisms r members).result.name = r.name ∧
      ∀ f ∈ (Record.addMembers initialisms r members).result.fields,
        f.Accounted initialisms
          (events ++ (Record.addMembers initialisms r members).events) r.name := by
  induction members generalizing r events with
  | nil =>
    rw [Record.addMembers, Reported.events_pure, List.append_nil]
    exact ⟨rfl, hr⟩
  | cons m members ih =>
    obtain ⟨hm, hrest⟩ := List.forall_mem_cons.mp h
    obtain ⟨key, v⟩ := m
    let described := Shape.ofValue initialisms key (Identifier.ofKey initialisms key) v
    let f : Field :=
      ⟨key, Identifier.ofKey initialisms key, described.result, false, v.sample?⟩
    have hshape := (hm.ofValue r.name key (Identifier.ofKey initialisms key)).mono
      (List.subset_append_right events described.events)
    have hf : f.Accounted initialisms (events ++ described.events) r.name := by
      refine ⟨⟨hshape.backed, ⟨[], by simp, ?_⟩, fun hne => absurd rfl hne⟩, hshape.inner⟩
      exact (String.append_empty ..).symm
    have hadded := Record.accounted_addReporting
      (fun g hg => (hr g hg).mono (List.subset_append_left _ _)) hf
    have hname : (r.addReporting f).result.name = r.name := by
      rw [Record.result_addReporting]
      rfl
    obtain ⟨hname', hfields⟩ := ih hrest (by rw [hname]; exact hadded)
    rw [Record.addMembers, Reported.events_bind, Reported.events_bind, ← List.append_assoc,
      ← List.append_assoc]
    rw [hname] at hname' hfields
    exact ⟨hname', hfields⟩

theorem accounted_object {members : List (String × Value)}
    (h : ∀ m ∈ members, m.2.Accounted initialisms) : (object members).Accounted initialisms := by
  intro name
  have hempty : ∀ f ∈ (Record.empty name).fields, f.Accounted initialisms [] name :=
    fun _ hf => absurd hf List.not_mem_nil
  obtain ⟨hname, hfields⟩ := accounted_addMembers h hempty
  refine ⟨hname, Record.accounted_iff.mpr ?_⟩
  rw [Record.ofObject, hname]
  exact hfields

/-- Elements after those that have been joined so far. -/
theorem accounted_joinElements {rest : List Value} (h : ∀ v ∈ rest, v.Accounted initialisms)
    {a b : Shape} (ha : a.AccountedElement initialisms events record key name)
    (hb : (Shape.joinElements initialisms key name a rest).result = some b) :
    b.AccountedElement initialisms
      (events ++ (Shape.joinElements initialisms key name a rest).events) record key name := by
  induction rest generalizing a events with
  | nil =>
    rw [Shape.joinElements, Reported.result_pure] at hb
    obtain rfl := Option.some.inj hb
    exact ha.mono (List.subset_append_left _ _)
  | cons v rest ih =>
    obtain ⟨hv, hrest⟩ := List.forall_mem_cons.mp h
    rw [Shape.joinElements, Reported.result_bind] at hb
    rw [Shape.joinElements, Reported.events_bind]
    cases hdescribed : (Shape.ofElement? initialisms key name v).result with
    | none =>
      rw [hdescribed] at hb
      contradiction
    | some other =>
      have hother := hv.ofElement? record key name hdescribed
      rw [hdescribed] at hb
      dsimp only at hb ⊢
      cases hjoin : a.elementJoin? Record.merge other with
      | none =>
        rw [hjoin] at hb
        contradiction
      | some joined =>
        rw [hjoin] at hb
        have hjoined := (ha.mono (List.subset_append_left _ _)).elementJoin?
          (hother.mono (List.subset_append_right events _)) hjoin
        have hih := ih hrest hjoined hb
        rw [List.append_assoc, List.append_assoc] at hih
        exact hih

/-- Objects are taken in one after another. -/
theorem accounted_ofObjects {values : List Value} (h : ∀ v ∈ values, v.Accounted initialisms)
    {g : Gathering} (hg : g.Accounted initialisms events) :
    (Gathering.ofObjects initialisms g values).result.record.name = g.record.name ∧
      (Gathering.ofObjects initialisms g values).result.Accounted initialisms
        (events ++ (Gathering.ofObjects initialisms g values).events) := by
  induction values generalizing g events with
  | nil =>
    rw [Gathering.ofObjects, Reported.events_pure, List.append_nil]
    exact ⟨rfl, hg⟩
  | cons v values ih =>
    obtain ⟨hv, hrest⟩ := List.forall_mem_cons.mp h
    have hstep : (Gathering.ofObject initialisms g v).result.record.name = g.record.name ∧
        (Gathering.ofObject initialisms g v).result.Accounted initialisms
          (events ++ (Gathering.ofObject initialisms g v).events) := by
      cases v with
      | object members =>
        let sample := Record.ofObject initialisms g.record.name members
        obtain ⟨hname, hsample⟩ := hv g.record.name
        have habsorbed := Gathering.Accounted.absorb (Record.mergeAccounted_merge initialisms)
          (fun f hf => (hg f hf).mono (List.subset_append_left events sample.events)) hname
          (hsample.mono (List.subset_append_right events sample.events))
        rw [List.append_assoc] at habsorbed
        exact ⟨(Gathering.absorbFields_frame _ sample.result.fields).1, habsorbed⟩
      | _ =>
        rw [Gathering.ofObject, Reported.events_pure, List.append_nil]
        · exact ⟨rfl, hg⟩
        · simp
    obtain ⟨hname, hstep⟩ := hstep
    obtain ⟨hname', hih⟩ := ih hrest hstep
    rw [List.append_assoc] at hih
    exact ⟨hname'.trans hname, hih⟩

theorem accounted_array {elements : List Value} (h : ∀ v ∈ elements, v.Accounted initialisms) :
    (array elements).Accounted initialisms := by
  intro record key name
  cases elements with
  | nil => exact Shape.accounted_anySlice (Or.inl (by simp [Shape.ofElements, Reported.report]))
  | cons first rest =>
    rw [Shape.ofElements]
    split
    · let g := Gathering.ofObjects initialisms (Gathering.start name) (first :: rest)
      obtain ⟨hname, hgathered⟩ :=
        accounted_ofObjects h (Gathering.accounted_start [] name)
      have hfinish : (Shape.structSlice g.result.finish).Accounted initialisms g.events
          record key name := Shape.accounted_structSlice_iff.mpr ⟨hname, hgathered.finish⟩
      simpa [g, Gathering.ofObjects] using hfinish
    · obtain ⟨hfirst, hrest⟩ := List.forall_mem_cons.mp h
      rw [Reported.result_bind, Reported.events_bind]
      cases hdescribed : (Shape.ofElement? initialisms key name first).result with
      | none => exact Shape.accounted_ofJoinedElements fun a ha => by contradiction
      | some a =>
        have ha := hfirst.ofElement? record key name hdescribed
        have hjoined := Shape.accounted_ofJoinedElements fun b hb =>
          accounted_joinElements hrest ha hb
        rw [List.append_assoc] at hjoined
        exact hjoined

theorem accounted (initialisms : Initialisms) (v : Value) : v.Accounted initialisms := by
  induction v using Value.induct with
  | hobject members ih => exact accounted_object ih
  | harray elements ih => exact accounted_array ih
  | hscalar v hv => cases v <;> trivial

end Value

end Exemplar
