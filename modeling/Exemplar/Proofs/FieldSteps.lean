import Exemplar.Proofs.DistinctFields

/-!
# What taking in one field does

A gathering that takes in a field merges it with its own field of that key, or adds it at the end.
All other fields stay. So what a gathering has under one key depends on the fields of that key
alone, in the order in which they come in.
-/

namespace Exemplar

variable {m : RecordMerge}

/-- The keys of a record with their identifiers, in order. -/
def Record.bindings (r : Record) : List (String × String) :=
  r.fields.map fun f => (f.sourceKey, f.identifier)

theorem Record.mem_bindings {r : Record} {key identifier : String} :
    (key, identifier) ∈ r.bindings ↔
      ∃ f ∈ r.fields, f.sourceKey = key ∧ f.identifier = identifier := by
  simp [bindings]

theorem Record.sourceKeys_eq_bindings (r : Record) : r.sourceKeys = r.bindings.map Prod.fst := by
  rw [bindings, List.map_map]
  rfl

theorem Record.identifiers_eq_bindings (r : Record) : r.identifiers = r.bindings.map Prod.snd := by
  rw [bindings, List.map_map]
  rfl

theorem Record.bindings_add (r : Record) (f : Field) :
    (r.add f).1.bindings = r.bindings ++ [(f.sourceKey, (r.renamed f).identifier)] :=
  List.map_append

theorem Record.field?_add (r : Record) (f : Field) (key : String) :
    (r.add f).1.field? key =
      (r.field? key).or (if f.sourceKey = key then some (r.renamed f) else none) := by
  have hsame : (r.renamed f).sourceKey = f.sourceKey := rfl
  rw [field?, add, List.find?_append, List.find?_singleton, hsame]
  simp only [decide_eq_true_eq]
  rfl

theorem Record.field?_eq_none_iff {r : Record} {key : String} :
    r.field? key = none ↔ key ∉ r.sourceKeys := by
  simp [field?, sourceKeys]

theorem Record.mem_of_field? {r : Record} {key : String} {f : Field} (h : r.field? key = some f) :
    f ∈ r.fields ∧ f.sourceKey = key :=
  ⟨List.mem_of_find?_eq_some h, by simpa using List.find?_some h⟩

/-- The only field of a key is the one found there. -/
theorem Record.field?_of_mem {r : Record} (hkeys : r.sourceKeys.Nodup) {f : Field}
    (hf : f ∈ r.fields) : r.field? f.sourceKey = some f := by
  obtain ⟨before, after, hfields⟩ := List.append_of_mem hf
  rw [sourceKeys, hfields, List.map_append, List.nodup_append] at hkeys
  refine List.find?_eq_some_iff_append.mpr ⟨by simp, before, after, hfields, fun g hg => ?_⟩
  have hne := hkeys.2.2 _ (List.mem_map_of_mem hg) _ List.mem_cons_self
  simpa using hne

namespace Gathering

/-- The first field of the incoming key is merged where it stands. -/
theorem mergeInto?_cases {record : String} {incoming : Field} {fields : List Field}
    {merged : Reported (List Field)} (h : mergeInto? m record incoming fields = some merged) :
    ∃ before old after, fields = before ++ old :: after ∧
      incoming.sourceKey ∉ before.map Field.sourceKey ∧ old.sourceKey = incoming.sourceKey ∧
      merged.result = before ++ (old.merge m record incoming).result :: after ∧
      merged.events = (old.merge m record incoming).events := by
  induction fields generalizing merged with
  | nil => contradiction
  | cons f fields ih =>
    rw [mergeInto?] at h
    by_cases hkey : f.sourceKey = incoming.sourceKey
    · rw [if_pos hkey] at h
      obtain rfl := Option.some.inj h
      exact ⟨[], f, fields, rfl, List.not_mem_nil, hkey, rfl, Reported.events_map ..⟩
    · rw [if_neg hkey] at h
      obtain ⟨rest, hrest, rfl⟩ := Option.map_eq_some_iff.mp h
      obtain ⟨before, old, after, rfl, hbefore, hold, hresult, hevents⟩ := ih hrest
      refine ⟨f :: before, old, after, rfl, ?_, hold, ?_, ?_⟩
      · rw [List.map_cons, List.mem_cons, not_or]
        exact ⟨Ne.symm hkey, hbefore⟩
      · rw [Reported.result_map, hresult, List.cons_append]
      · rw [Reported.events_map, hevents]

variable (m) (g : Gathering) (f : Field)

/-- The field found under the incoming key is merged with the incoming field, and the rest stays.
-/
theorem absorbField_cases :
    (∃ before old after, g.record.fields = before ++ old :: after ∧
        g.record.field? f.sourceKey = some old ∧
        f.sourceKey ∉ before.map Field.sourceKey ∧
        (g.absorbField m f).result.record =
          ⟨g.record.name, before ++ (old.merge m g.record.name f).result :: after⟩ ∧
        (g.absorbField m f).events = (old.merge m g.record.name f).events) ∨
      (g.record.field? f.sourceKey = none ∧
        (g.absorbField m f).result.record = (g.record.add f).1 ∧
        (g.absorbField m f).events = (g.record.addReporting f).events) := by
  rw [absorbField]
  cases hmerge : mergeInto? m g.record.name f g.record.fields with
  | some merged =>
    obtain ⟨before, old, after, hfields, hbefore, hold, hresult, hevents⟩ := mergeInto?_cases hmerge
    have hfound : g.record.field? f.sourceKey = some old := by
      refine List.find?_eq_some_iff_append.mpr ⟨by simpa using hold, before, after, hfields, ?_⟩
      intro first hfirst
      simpa using fun he : first.sourceKey = f.sourceKey =>
        hbefore (he ▸ List.mem_map_of_mem hfirst)
    refine Or.inl ⟨before, old, after, hfields, hfound, hbefore, ?_, ?_⟩
    · rw [← hresult]
      rfl
    · rw [Reported.events_bind, Reported.events_pure, List.append_nil, hevents]
  | none =>
    have hnew := not_mem_of_mergeInto?_eq_none hmerge
    refine Or.inr ⟨Record.field?_eq_none_iff.mpr hnew, Record.result_addReporting .., ?_⟩
    rw [Reported.events_bind, Reported.events_pure, List.append_nil]

/-- What is found under a key afterwards. -/
theorem field?_absorbField (key : String) :
    (g.absorbField m f).result.record.field? key =
      if f.sourceKey = key then
        match g.record.field? key with
        | some old => some (old.merge m g.record.name f).result
        | none => some (g.record.renamed f)
      else g.record.field? key := by
  rcases absorbField_cases m g f with ⟨before, old, after, hfields, hfound, hbefore, hresult, -⟩ |
    ⟨hnew, hresult, -⟩
  · have hold := (Record.mem_of_field? hfound).2
    have hkey := (old.merge_frame m g.record.name f).1.trans hold
    have hnone : before.find? (·.sourceKey = f.sourceKey) = none := by
      simpa using hbefore
    by_cases hsame : f.sourceKey = key
    · subst hsame
      rw [if_pos rfl, hfound, hresult, Record.field?, List.find?_append, hnone]
      simp [hkey]
    · rw [if_neg hsame, hresult, Record.field?, Record.field?, hfields, List.find?_append,
        List.find?_append, List.find?_cons, List.find?_cons, hkey, hold]
      simp [hsame]
  · rw [hresult, Record.field?_add]
    by_cases hsame : f.sourceKey = key
    · subst hsame
      rw [hnew, if_pos rfl]
      rfl
    · rw [if_neg hsame, if_neg hsame, Option.or_none]

variable {g f} in
/-- A key that has an identifier keeps it. -/
theorem bindings_absorbField_of_some {old : Field}
    (h : g.record.field? f.sourceKey = some old) :
    (g.absorbField m f).result.record.bindings = g.record.bindings := by
  rcases absorbField_cases m g f with ⟨before, old, after, hfields, -, -, hresult, -⟩ | ⟨hnone, -⟩
  · obtain ⟨hkey, hidentifier⟩ := old.merge_frame m g.record.name f
    rw [hresult, Record.bindings, Record.bindings, hfields, List.map_append, List.map_append,
      List.map_cons, List.map_cons, hkey, hidentifier]
  · rw [h] at hnone
    contradiction

variable {g f} in
theorem record_absorbField_of_none (h : g.record.field? f.sourceKey = none) :
    (g.absorbField m f).result.record = (g.record.add f).1 := by
  rcases absorbField_cases m g f with ⟨_, old, _, -, hfound, -⟩ | ⟨-, hresult, -⟩
  · rw [h] at hfound
    contradiction
  · exact hresult

/-- What is reported. -/
theorem events_absorbField :
    (g.absorbField m f).events =
      match g.record.field? f.sourceKey with
      | some old => (old.merge m g.record.name f).events
      | none => (g.record.addReporting f).events := by
  rcases absorbField_cases m g f with ⟨_, old, _, -, hfound, -, -, hevents⟩ | ⟨hnew, -, hevents⟩
  · rw [hfound, hevents]
  · rw [hnew, hevents]

theorem name_ofObjects (initialisms : Initialisms) (values : List Value) :
    (ofObjects initialisms g values).result.record.name = g.record.name := by
  induction values generalizing g with
  | nil => rfl
  | cons v values ih =>
    refine (ih _).trans ?_
    cases v with
    | object members => exact (absorbFields_frame ..).1
    | _ => rfl

end Gathering

end Exemplar
