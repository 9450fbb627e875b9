import Exemplar.Proofs.FieldSteps
import Exemplar.Proofs.Refinement
import Exemplar.Proofs.ScalarExamples

/-!
# Conflicts between scalars

Examples of scalars give each key a row of kinds, in the order of the examples. As long as the kinds
join, their join is the shape of the field and nothing is reported. The first kind that does not
join with those before it is reported as a conflict, once: the field takes any value from then on,
and no later kind is in conflict with that.
-/

namespace Exemplar

/-- Whether an event tells that the values of a key disagree. -/
def Event.isConflictAt (key : String) : Event → Bool
  | .typeConflict _ key' _ _ => key' = key
  | _ => false

/-- The kind that covers all kinds of a list, if they join one after another. -/
def ScalarKind.joinAll? (kinds : List ScalarKind) : Option ScalarKind :=
  kinds.foldlM join? .null

/-- The kinds before `incoming` join to `joined`, and `incoming` does not join with that. -/
def ScalarKind.FirstConflict (kinds : List ScalarKind) (joined incoming : ScalarKind) : Prop :=
  ∃ before after, kinds = before ++ incoming :: after ∧
    joinAll? before = some joined ∧ joined.join? incoming = none

/-- The kinds of the values of a key, in the order of the examples. -/
def Examples.kinds (key : String) (examples : List (List (String × Value))) : List ScalarKind :=
  (observed key examples).filterMap Value.scalarKind?

/-- What becomes of a field of a key, and which conflicts are reported for it, after a list of
kinds. -/
inductive Judged (record key : String) (kinds : List ScalarKind) : Shape → List Event → Prop where
  | joined {kind : ScalarKind} (h : ScalarKind.joinAll? kinds = some kind) :
    Judged record key kinds (.scalar kind) []
  | conflict {joined incoming : ScalarKind} (h : ScalarKind.FirstConflict kinds joined incoming) :
    Judged record key kinds .any [.typeConflict record key joined.label incoming.label]

variable {m : RecordMerge}

namespace ScalarKind

theorem joinAll?_append_singleton (kinds : List ScalarKind) (kind : ScalarKind) :
    joinAll? (kinds ++ [kind]) = (joinAll? kinds).bind (·.join? kind) := by
  rw [joinAll?, List.foldlM_append]
  simp [joinAll?]

theorem joinAll?_singleton (kind : ScalarKind) : joinAll? [kind] = some kind := by
  cases kind <;> rfl

/-- A conflict stays the first one, whatever kinds follow. -/
theorem FirstConflict.append {kinds : List ScalarKind} {joined incoming : ScalarKind}
    (h : FirstConflict kinds joined incoming) (more : List ScalarKind) :
    FirstConflict (kinds ++ more) joined incoming := by
  obtain ⟨before, after, rfl, hjoined, hnone⟩ := h
  exact ⟨before, after ++ more, by simp, hjoined, hnone⟩

end ScalarKind

/-! One kind -/

theorem Field.merge_of_any {f : Field} (h : f.shape = .any) (record : String) (g : Field) :
    (f.merge m record g).result.shape = .any ∧ (f.merge m record g).events = [] := by
  rw [Field.merge, h]
  simp [Shape.join?]

theorem Field.merge_of_join? {f g : Field} {j k kind : ScalarKind} (hf : f.shape = .scalar j)
    (hg : g.shape = .scalar k) (h : j.join? k = some kind) (record : String) :
    (f.merge m record g).result.shape = .scalar kind ∧ (f.merge m record g).events = [] := by
  rw [Field.merge, hf, hg, Shape.join?, h]
  simp

theorem Field.merge_of_join?_eq_none {f g : Field} {j k : ScalarKind} (hf : f.shape = .scalar j)
    (hg : g.shape = .scalar k) (h : j.join? k = none) (record : String) :
    (f.merge m record g).result.shape = .any ∧
      (f.merge m record g).events =
        [.typeConflict record f.sourceKey j.label k.label] := by
  rw [Field.merge, hf, hg, Shape.join?, h]
  exact ⟨rfl, rfl⟩

/-- One more kind of the key. -/
theorem Judged.merge {record key : String} {kinds : List ScalarKind} {f g : Field}
    {reported : List Event} (h : Judged record key kinds f.shape reported)
    (hkey : f.sourceKey = key) {kind : ScalarKind} (hg : g.shape = .scalar kind) :
    Judged record key (kinds ++ [kind]) (f.merge m record g).result.shape
      (reported ++ (f.merge m record g).events.filter (Event.isConflictAt key)) := by
  generalize hshape : f.shape = shape at h
  cases h with
  | @joined j hj =>
    have hnext : ScalarKind.joinAll? (kinds ++ [kind]) = j.join? kind := by
      rw [ScalarKind.joinAll?_append_singleton, hj, Option.bind_some]
    cases hjoin : j.join? kind with
    | some joined =>
      obtain ⟨hmerged, hevents⟩ := Field.merge_of_join? (m := m) hshape hg hjoin record
      rw [hmerged, hevents]
      exact .joined (hnext.trans hjoin)
    | none =>
      obtain ⟨hmerged, hevents⟩ := Field.merge_of_join?_eq_none (m := m) hshape hg hjoin record
      rw [hmerged, hevents, hkey, List.filter_cons_of_pos (by simp [Event.isConflictAt])]
      exact .conflict ⟨kinds, [], rfl, hj, hjoin⟩
  | conflict hfirst =>
    obtain ⟨hmerged, hevents⟩ := Field.merge_of_any (m := m) hshape record g
    rw [hmerged, hevents, List.filter_nil, List.append_nil]
    exact .conflict (hfirst.append [kind])

theorem Judged.conflict_of_any {record key : String} {kinds : List ScalarKind}
    {reported : List Event} (h : Judged record key kinds .any reported) :
    ∃ joined incoming, ScalarKind.FirstConflict kinds joined incoming ∧
      reported = [.typeConflict record key joined.label incoming.label] := by
  cases h with
  | conflict hfirst => exact ⟨_, _, hfirst, rfl⟩

/-! The kinds that members bring -/

namespace Examples

theorem kinds_append (key : String) (xs ys : List (List (String × Value))) :
    kinds key (xs ++ ys) = kinds key xs ++ kinds key ys := by
  rw [kinds, observed_append, List.filterMap_append]
  rfl

/-- A member of the key brings its kind; no other member of the object has the key. -/
theorem kinds_cons_member {key : String} {member : String × Value}
    {members : List (String × Value)} (hnodup : ((member :: members).map Prod.fst).Nodup)
    {kind : ScalarKind} (hkind : member.2.scalarKind? = some kind) :
    kinds key [member :: members] =
      (if member.1 = key then [kind] else []) ++ kinds key [members] := by
  obtain ⟨hnot, -⟩ := List.nodup_cons.mp hnodup
  by_cases hkey : member.1 = key
  · subst hkey
    have hfirst : List.lookup member.1 (member :: members) = some member.2 := List.lookup_cons_self
    have hnone : List.lookup member.1 members = none := by
      rw [← Option.not_isSome_iff_eq_none, isSome_lookup_iff]
      exact hnot
    simp [kinds, observed, hfirst, hnone, hkind]
  · have hsame : List.lookup key (member :: members) = List.lookup key members := by
      rw [List.lookup_cons, beq_false_of_ne (Ne.symm hkey)]
    simp only [kinds, observed, List.filterMap_cons, hsame]
    simp [hkey]

end Examples

/-! All kinds of a key -/

/-- What a gathering has for a key after a list of kinds: no field as long as there is no kind.
Conflicts are those that were reported for the key. -/
inductive Gathering.Judges (g : Gathering) (key : String) :
    List ScalarKind → List Event → Prop where
  | missing (h : g.record.field? key = none) : Judges g key [] []
  | found {f : Field} {kinds : List ScalarKind} {reported : List Event}
    (h : g.record.field? key = some f) (hj : Judged g.record.name key kinds f.shape reported) :
    Judges g key kinds reported

theorem Record.filter_isConflictAt_addReporting (r : Record) (f : Field) (key : String) :
    (r.addReporting f).events.filter (Event.isConflictAt key) = [] := by
  refine List.filter_eq_nil_iff.mpr fun e he => ?_
  obtain ⟨-, rfl⟩ := eq_collision_of_mem_addReporting he
  exact Bool.false_ne_true

/-- A field that does not have the key is in no conflict there. -/
theorem Field.filter_isConflictAt_merge {f g : Field} {kind : ScalarKind}
    (hg : g.shape = .scalar kind) {key : String} (hkey : f.sourceKey ≠ key) (record : String) :
    (f.merge m record g).events.filter (Event.isConflictAt key) = [] := by
  refine List.filter_eq_nil_iff.mpr fun e he => ?_
  rw [Field.eq_typeConflict_of_mem_merge hg he]
  simpa [Event.isConflictAt] using hkey

namespace Gathering

variable {g : Gathering} {key : String} {kinds : List ScalarKind} {reported : List Event}

theorem filter_isConflictAt_absorbField {f : Field} {kind : ScalarKind}
    (hf : f.shape = .scalar kind) (hkey : f.sourceKey ≠ key) :
    (g.absorbField m f).events.filter (Event.isConflictAt key) = [] := by
  rw [events_absorbField]
  cases hfound : g.record.field? f.sourceKey with
  | some old =>
    have hne : old.sourceKey ≠ key := (Record.mem_of_field? hfound).2.symm ▸ hkey
    exact Field.filter_isConflictAt_merge hf hne _
  | none => exact Record.filter_isConflictAt_addReporting ..

/-- One field of an example. -/
theorem Judges.absorbField (h : g.Judges key kinds reported) {f : Field} {kind : ScalarKind}
    (hf : f.shape = .scalar kind) :
    (g.absorbField m f).result.Judges key (kinds ++ if f.sourceKey = key then [kind] else [])
      (reported ++ (g.absorbField m f).events.filter (Event.isConflictAt key)) := by
  have hname := (absorbField_frame (m := m) g f).1
  have hresult := field?_absorbField m g f key
  by_cases hkey : f.sourceKey = key
  · subst hkey
    rw [if_pos rfl] at hresult ⊢
    rw [events_absorbField]
    cases h with
    | missing hnone =>
      rw [hnone] at hresult ⊢
      dsimp only
      rw [Record.filter_isConflictAt_addReporting]
      refine .found hresult ?_
      have hshape : (g.record.renamed f).shape = .scalar kind := hf
      rw [hshape]
      exact .joined (ScalarKind.joinAll?_singleton kind)
    | found hfound hj =>
      rw [hfound] at hresult ⊢
      refine .found hresult ?_
      rw [hname]
      exact hj.merge (Record.mem_of_field? hfound).2 hf
  · rw [if_neg hkey] at hresult ⊢
    rw [filter_isConflictAt_absorbField hf hkey, List.append_nil, List.append_nil]
    cases h with
    | missing hnone => exact .missing (hresult.trans hnone)
    | found hfound hj => exact .found (hresult.trans hfound) (hname.symm ▸ hj)

/-- All fields of an example, which its members have become. -/
theorem Judges.absorbFields (h : g.Judges key kinds reported) {members : List (String × Value)}
    {fields : List Field} (hfields : List.Forall₂ Field.IsOf members fields)
    (hnodup : (members.map Prod.fst).Nodup) :
    (g.absorbFields m fields).result.Judges key (kinds ++ Examples.kinds key [members])
      (reported ++ (g.absorbFields m fields).events.filter (Event.isConflictAt key)) := by
  induction hfields generalizing g kinds reported with
  | nil =>
    have hnone : Examples.kinds key [[]] = [] := rfl
    rw [hnone, List.append_nil, Gathering.absorbFields, Reported.events_pure, List.filter_nil,
      List.append_nil]
    exact h
  | @cons member f members fields hf _ ih =>
    obtain ⟨kind, hkind, hshape⟩ := hf.shape
    have hstep := ih (h.absorbField (m := m) hshape) (List.nodup_cons.mp hnodup).2
    rw [hf.sourceKey, List.append_assoc, List.append_assoc,
      ← Examples.kinds_cons_member hnodup hkind, ← List.filter_append] at hstep
    exact hstep

end Gathering

/-! Examples -/

theorem Record.filter_isConflictAt_addMembers {initialisms : Initialisms}
    {members : List (String × Value)} (h : ∀ m ∈ members, m.2.isScalar) (r : Record)
    (key : String) :
    (addMembers initialisms r members).events.filter (Event.isConflictAt key) = [] := by
  obtain ⟨fields, -, -, hevents⟩ := addMembers_of_scalars initialisms r h
  refine List.filter_eq_nil_iff.mpr fun e he => ?_
  rcases hevents e he with ⟨key, kind, rfl⟩ | ⟨f, -, -, rfl⟩ <;> exact Bool.false_ne_true

namespace Gathering

variable {g : Gathering} {key : String} {kinds : List ScalarKind} {reported : List Event}

/-- One example. -/
theorem Judges.ofObject (h : g.Judges key kinds reported) (initialisms : Initialisms)
    {members : List (String × Value)} (hnodup : (members.map Prod.fst).Nodup)
    (hscalar : ∀ m ∈ members, m.2.isScalar) :
    (ofObject initialisms g (.object members)).result.Judges key
      (kinds ++ Examples.kinds key [members])
      (reported ++
        (ofObject initialisms g (.object members)).events.filter (Event.isConflictAt key)) := by
  obtain ⟨fields, hresult, hfields, -⟩ :=
    Record.addMembers_of_scalars initialisms (Record.empty g.record.name) hscalar
  have hcounted : Judges { g with examples := g.examples + 1 } key kinds reported := by
    cases h with
    | missing hnone => exact .missing hnone
    | found hfound hj => exact .found hfound hj
  have hstep := hcounted.absorbFields (m := Record.merge) hfields hnodup
  rw [Gathering.ofObject, Reported.events_bind, Reported.result_bind, List.filter_append,
    Record.filter_isConflictAt_addMembers hscalar, List.nil_append, hresult]
  exact hstep

/-- Any number of examples. -/
theorem Judges.ofObjects (h : g.Judges key kinds reported) (initialisms : Initialisms)
    {examples : List (List (String × Value))}
    (hkeys : ∀ members ∈ examples, (members.map Prod.fst).Nodup)
    (hscalar : ∀ members ∈ examples, ∀ m ∈ members, m.2.isScalar) :
    (ofObjects initialisms g (examples.map Value.object)).result.Judges key
      (kinds ++ Examples.kinds key examples)
      (reported ++ (ofObjects initialisms g (examples.map Value.object)).events.filter
        (Event.isConflictAt key)) := by
  induction examples generalizing g kinds reported with
  | nil =>
    have hnone : Examples.kinds key [] = [] := rfl
    rw [List.map_nil, Gathering.ofObjects, hnone, Reported.events_pure, List.filter_nil,
      List.append_nil, List.append_nil]
    exact h
  | cons members examples ih =>
    obtain ⟨hfirst, hrest⟩ := List.forall_mem_cons.mp hkeys
    obtain ⟨hfirst', hrest'⟩ := List.forall_mem_cons.mp hscalar
    have hstep := ih (h.ofObject initialisms hfirst hfirst') hrest hrest'
    rw [List.append_assoc, List.append_assoc, ← Examples.kinds_append, ← List.filter_append]
      at hstep
    exact hstep

theorem Judges.of_mem (h : g.Judges key kinds reported) (hnodup : g.record.sourceKeys.Nodup)
    {f : Field} (hf : f ∈ g.record.fields) (hkey : f.sourceKey = key) :
    Judged g.record.name key kinds f.shape reported := by
  subst hkey
  have hfield := Record.field?_of_mem hnodup hf
  cases h with
  | missing hnone => exact absurd (hfield.symm.trans hnone) (by simp)
  | found hfound hj =>
    obtain rfl := Option.some.inj (hfield.symm.trans hfound)
    exact hj

theorem Judges.eq_nil (h : g.Judges key kinds reported)
    (hall : ∀ f ∈ g.record.fields, f.sourceKey = key → f.shape ≠ .any) : reported = [] := by
  cases h with
  | missing => rfl
  | @found f _ _ hfound hj =>
    obtain ⟨hf, hkey⟩ := Record.mem_of_field? hfound
    generalize hshape : f.shape = shape at hj
    cases hj with
    | joined => rfl
    | conflict => exact absurd hshape (hall f hf hkey)

end Gathering

namespace Record

/-- A key whose field takes any value has had one conflict, and it is reported once: between what
the kinds before had in common and the first kind that did not join with that. No conflict is
reported for any other key. -/
theorem conflicts_ofObjects (initialisms : Initialisms) (name key : String)
    (examples : List (List (String × Value)))
    (hkeys : ∀ members ∈ examples, (Value.object members).keysDistinct)
    (hscalar : ∀ members ∈ examples, ∀ m ∈ members, m.2.isScalar) :
    let described := ofObjects initialisms name (examples.map Value.object)
    ((∀ f ∈ described.result.fields, f.sourceKey = key → f.shape ≠ .any) →
        described.events.filter (Event.isConflictAt key) = []) ∧
      ∀ f ∈ described.result.fields, f.sourceKey = key → f.shape = .any →
        ∃ joined incoming, ScalarKind.FirstConflict (Examples.kinds key examples) joined incoming ∧
          described.events.filter (Event.isConflictAt key) =
            [.typeConflict name key joined.label incoming.label] := by
  intro described
  let gathered := Gathering.ofObjects initialisms (Gathering.start name) (examples.map Value.object)
  have hevents : described.events = gathered.events := Reported.events_map ..
  have hname : gathered.result.record.name = name := Gathering.name_ofObjects ..
  have hdistinct : gathered.result.record.sourceKeys.Nodup :=
    (forall_mem_records.mp (Gathering.fieldsDistinct_ofObjects (Gathering.fieldsDistinct_start name)
      (List.forall_mem_map.mpr hkeys))).1.1
  have hjudged : gathered.result.Judges key (Examples.kinds key examples)
      (gathered.events.filter (Event.isConflictAt key)) :=
    (Gathering.Judges.missing (g := Gathering.start name) rfl).ofObjects initialisms
      (fun members h => ((Value.keysDistinct_object members).mp (hkeys members h)).1) hscalar
  -- presence changes no shape
  have hfields : ∀ P : String → Shape → Prop,
      (∀ f ∈ described.result.fields, P f.sourceKey f.shape) ↔
        ∀ f ∈ gathered.result.record.fields, P f.sourceKey f.shape := fun P =>
    Gathering.forall_mem_withPresence (P := fun f => P f.sourceKey f.shape) (fun _ _ => Iff.rfl) ..
  rw [hfields fun key' shape => key' = key → shape ≠ .any,
    hfields fun key' shape => key' = key → shape = .any → _, hevents]
  refine ⟨hjudged.eq_nil, fun f hf hkey hany => ?_⟩
  have hf := hjudged.of_mem hdistinct hf hkey
  rw [hany, hname] at hf
  exact hf.conflict_of_any

/-- Integers join to big ones, past a null and an example without the key. The text is the first
kind that does not fit, and the boolean after it is not reported. -/
theorem conflicts_ofObjects_of_six :
    let examples : List (List (String × Value)) :=
      [[("id", .integer 1)], [("id", .null)], [], [("id", .integer (2 ^ 70))],
        [("id", .string "x")], [("id", .boolean true)]]
    let described := ofObjects Initialisms.standard "Item" (examples.map Value.object)
    (∀ members ∈ examples, (Value.object members).keysDistinct) ∧
      (∀ members ∈ examples, ∀ m ∈ members, m.2.isScalar) ∧
      ((∀ f ∈ described.result.fields, f.sourceKey = "id" → f.shape ≠ .any) →
        described.events.filter (Event.isConflictAt "id") = []) ∧
      (∀ f ∈ described.result.fields, f.sourceKey = "id" → f.shape = .any →
        ∃ joined incoming,
          ScalarKind.FirstConflict (Examples.kinds "id" examples) joined incoming ∧
            described.events.filter (Event.isConflictAt "id") =
              [.typeConflict "Item" "id" joined.label incoming.label]) ∧
      described.result.fields.map Field.shape = [.any] ∧
      described.events.filter (Event.isConflictAt "id") =
        [.typeConflict "Item" "id" "big integer" "string"] := by
  intro examples described
  have hkeys : ∀ members ∈ examples, (Value.object members).keysDistinct := by decide
  have hscalar : ∀ members ∈ examples, ∀ m ∈ members, m.2.isScalar := by decide
  obtain ⟨hnone, hone⟩ :=
    conflicts_ofObjects Initialisms.standard "Item" "id" examples hkeys hscalar
  exact ⟨hkeys, hscalar, hnone, hone, rfl, by decide +kernel⟩

end Record

end Exemplar
