import Exemplar.Proofs.CoveringAssociativity

/-!
# Merging three records

Records may be merged in either order if merging the last two first gives no key another identifier,
at any depth. Then the merge has the keys of all three in one order, and numbers those that the
first record does not have in one order. Without this condition a key can be numbered twice.
-/

namespace Exemplar

variable {m : RecordMerge}

/-! Fields -/

namespace Field

variable {f g h : Field}

theorem covering_missed (f g : Field) : f.covering m g.missed = (f.covering m g).missed := by
  simp [covering, missed]

theorem missed_covering (f g : Field) : f.missed.covering m g = (f.covering m g).missed := by
  simp [covering, missed]

/-- What happens to a field depends on its identifier in no way. -/
def KeepsNames (change : Field → Field) : Prop :=
  ∀ f : Field, (change f).sourceKey = f.sourceKey ∧ (change f).identifier = f.identifier ∧
    ∀ identifier, change { f with identifier } = { change f with identifier }

theorem keepsNames_missed : KeepsNames missed :=
  fun _ => ⟨rfl, rfl, fun _ => rfl⟩

theorem coveringAny_of_some {fields : List Field}
    (h : fields.find? (·.sourceKey = f.sourceKey) = some g) :
    coveringAny m fields f = f.covering m g := by
  rw [coveringAny, h]

theorem coveringAny_of_none {fields : List Field}
    (h : fields.find? (·.sourceKey = f.sourceKey) = none) :
    coveringAny m fields f = f.missed := by
  rw [coveringAny, h]

theorem keepsNames_coveringAny (fields : List Field) : KeepsNames (coveringAny m fields) := by
  intro f
  cases hfound : fields.find? (·.sourceKey = f.sourceKey) <;>
    simp only [coveringAny, hfound] <;> exact ⟨rfl, rfl, fun _ => rfl⟩

theorem coveringAny_missed (fields : List Field) (f : Field) :
    coveringAny m fields f.missed = (coveringAny m fields f).missed := by
  have hkey : f.missed.sourceKey = f.sourceKey := rfl
  rw [coveringAny, coveringAny, hkey]
  cases fields.find? (·.sourceKey = f.sourceKey) with
  | some g => exact missed_covering f g
  | none => rfl

theorem numbered_append (taken : List String) (fields more : List Field) :
    numbered taken (fields ++ more) = numbered taken fields ++
      numbered (taken ++ (numbered taken fields).map identifier) more := by
  induction fields generalizing taken with
  | nil => simp [numbered]
  | cons f fields ih => simp [numbered, ih]

/-- Numbering looks at identifiers only. -/
theorem numbered_map {change : Field → Field} (hchange : KeepsNames change) (taken : List String)
    (fields : List Field) :
    numbered taken (fields.map change) = (numbered taken fields).map change := by
  induction fields generalizing taken with
  | nil => rfl
  | cons f fields ih =>
    obtain ⟨-, hidentifier, hcommutes⟩ := hchange f
    rw [List.map_cons, numbered, hidentifier, ih, numbered, List.map_cons, hcommutes]

theorem find?_map {change : Field → Field} (hchange : KeepsNames change) (key : String)
    (fields : List Field) :
    (fields.map change).find? (·.sourceKey = key) =
      (fields.find? (·.sourceKey = key)).map change := by
  rw [List.find?_map]
  congr 2
  funext f
  rw [Function.comp_apply, (hchange f).1]

theorem sourceKey_numbered (taken : List String) (fields : List Field) :
    (numbered taken fields).map sourceKey = fields.map sourceKey := by
  induction fields generalizing taken with
  | nil => rfl
  | cons f fields ih => rw [numbered, List.map_cons, List.map_cons, ih]

end Field

/-! Records -/

namespace Record

theorem unknown_map {change : Field → Field} (hchange : Field.KeepsNames change) (r : Record)
    (fields : List Field) : r.unknown (fields.map change) = (r.unknown fields).map change := by
  rw [unknown, unknown, List.filter_map]
  congr 1
  refine List.filter_congr fun f _ => ?_
  rw [Function.comp_apply, (hchange f).1]

variable {a b c : Record}

theorem fields_covering (a b : Record) :
    (a.covering m b).fields = a.fields.map (Field.coveringAny m b.fields) ++
      (Field.numbered a.identifiers (a.unknown b.fields)).map Field.missed := rfl

theorem sourceKeys_covering (a b : Record) :
    (a.covering m b).sourceKeys = a.sourceKeys ++ (a.unknown b.fields).map Field.sourceKey := by
  rw [sourceKeys, covering, List.map_append, List.map_map, List.map_map]
  have hold : a.fields.map (Field.sourceKey ∘ Field.coveringAny m b.fields) = a.sourceKeys :=
    List.map_congr_left fun f _ => (Field.keepsNames_coveringAny b.fields f).1
  rw [hold]
  exact congrArg (a.sourceKeys ++ ·) (Field.sourceKey_numbered ..)

theorem identifiers_covering (a b : Record) :
    (a.covering m b).identifiers = a.identifiers ++
      (Field.numbered a.identifiers (a.unknown b.fields)).map Field.identifier := by
  rw [identifiers, covering, List.map_append, List.map_map, List.map_map]
  have hold : a.fields.map (Field.identifier ∘ Field.coveringAny m b.fields) = a.identifiers :=
    List.map_congr_left fun f _ => (Field.keepsNames_coveringAny b.fields f).2.1
  rw [hold]
  rfl

/-- A key is unknown to a merge if it is unknown to both records. -/
theorem unknown_covering (a b : Record) (fields : List Field) :
    (a.covering m b).unknown fields = a.unknown (b.unknown fields) := by
  rw [unknown, unknown, unknown, List.filter_filter, sourceKeys_covering]
  refine List.filter_congr fun f _ => ?_
  have hmem : f.sourceKey ∈ (a.unknown b.fields).map Field.sourceKey ↔
      f.sourceKey ∈ b.sourceKeys ∧ f.sourceKey ∉ a.sourceKeys := by
    simp only [unknown, List.mem_map, List.mem_filter, Bool.not_eq_true', List.contains_eq_mem,
      decide_eq_false_iff_not]
    constructor
    · rintro ⟨g, ⟨hg, hnot⟩, hkey⟩
      exact ⟨hkey ▸ List.mem_map_of_mem hg, hkey ▸ hnot⟩
    · rintro ⟨hmem, hnot⟩
      obtain ⟨g, hg, hkey⟩ := List.mem_map.mp hmem
      exact ⟨g, ⟨hg, hkey.symm ▸ hnot⟩, hkey⟩
  rw [Bool.eq_iff_iff]
  simp only [Bool.not_eq_true', List.contains_eq_mem, decide_eq_false_iff_not, Bool.and_eq_true,
    List.mem_append, hmem]
  tauto

/-- What is found under a key of a merge. -/
theorem find?_fields_covering
    (hfree : Field.numbered b.identifiers (b.unknown c.fields) = b.unknown c.fields)
    (key : String) :
    (b.covering m c).fields.find? (·.sourceKey = key) =
      match b.fields.find? (·.sourceKey = key) with
      | some g => some (Field.coveringAny m c.fields g)
      | none => (c.fields.find? (·.sourceKey = key)).map Field.missed := by
  rw [covering, hfree, List.find?_append, Field.find?_map (Field.keepsNames_coveringAny _),
    Field.find?_map Field.keepsNames_missed]
  cases hfound : b.fields.find? (·.sourceKey = key) with
  | some g => rfl
  | none =>
    have hnot : ∀ h ∈ c.fields, h.sourceKey = key → h.sourceKey ∉ b.sourceKeys := by
      rintro h - rfl hmem
      obtain ⟨g, hg, hsame⟩ := List.mem_map.mp hmem
      exact List.find?_eq_none.mp hfound g hg (by simpa using hsame)
    have hunknown : (b.unknown c.fields).find? (·.sourceKey = key) =
        c.fields.find? (·.sourceKey = key) := by
      rw [unknown, List.find?_filter]
      refine List.find?_congr fun h hh => ?_
      by_cases hkey : h.sourceKey = key
      · simpa [hkey] using hkey ▸ hnot h hh hkey
      · simp [hkey]
    rw [hunknown]
    rfl

/-- A field that covers a merge covers one record and then the other. -/
theorem coveringAny_covering
    (hfree : Field.numbered b.identifiers (b.unknown c.fields) = b.unknown c.fields) {f : Field}
    (hassoc : ∀ g ∈ b.fields, ∀ h ∈ c.fields, g.sourceKey = f.sourceKey →
      h.sourceKey = f.sourceKey → f.covering m (g.covering m h) = (f.covering m g).covering m h) :
    Field.coveringAny m (b.covering m c).fields f =
      Field.coveringAny m c.fields (Field.coveringAny m b.fields f) := by
  have hfound := find?_fields_covering (m := m) hfree f.sourceKey
  cases hb : b.fields.find? (·.sourceKey = f.sourceKey) with
  | some g =>
    have hg : g.sourceKey = f.sourceKey := by simpa using List.find?_some hb
    rw [hb] at hfound
    rw [Field.coveringAny_of_some hfound, Field.coveringAny_of_some hb]
    cases hc : c.fields.find? (·.sourceKey = f.sourceKey) with
    | some h =>
      have hh : h.sourceKey = f.sourceKey := by simpa using List.find?_some hc
      rw [Field.coveringAny_of_some (f := f.covering m g) hc,
        Field.coveringAny_of_some (f := g) (hg ▸ hc)]
      exact hassoc g (List.mem_of_find?_eq_some hb) h (List.mem_of_find?_eq_some hc) hg hh
    | none =>
      rw [Field.coveringAny_of_none (f := f.covering m g) hc,
        Field.coveringAny_of_none (f := g) (hg ▸ hc)]
      exact Field.covering_missed f g
  | none =>
    rw [Field.coveringAny_of_none hb, Field.coveringAny_missed]
    cases hc : c.fields.find? (·.sourceKey = f.sourceKey) with
    | some h =>
      rw [hb, hc] at hfound
      rw [Field.coveringAny_of_some hc, Field.coveringAny_of_some hfound]
      exact Field.covering_missed f h
    | none =>
      rw [hb, hc] at hfound
      rw [Field.coveringAny_of_none hc, Field.coveringAny_of_none hfound]
      rfl

/-- The fields of a merge that a record does not have are those of one record and then those of the
other. They get the identifiers that they would get one record after the other. -/
theorem numbered_unknown_covering (a : Record)
    (hfree : Field.numbered b.identifiers (b.unknown c.fields) = b.unknown c.fields) :
    Field.numbered a.identifiers (a.unknown (b.covering m c).fields) =
      (Field.numbered a.identifiers (a.unknown b.fields)).map (Field.coveringAny m c.fields) ++
        (Field.numbered (a.covering m b).identifiers
          ((a.covering m b).unknown c.fields)).map Field.missed := by
  have hunknown : a.unknown (b.covering m c).fields =
      (a.unknown b.fields).map (Field.coveringAny m c.fields) ++
        (a.unknown (b.unknown c.fields)).map Field.missed := by
    rw [covering, hfree, unknown, List.filter_append]
    rw [← unknown, ← unknown, unknown_map (Field.keepsNames_coveringAny _),
      unknown_map Field.keepsNames_missed]
  have hidentifiers : ∀ fields : List Field,
      (fields.map (Field.coveringAny m c.fields)).map Field.identifier =
        fields.map Field.identifier := fun fields => by
    rw [List.map_map]
    exact List.map_congr_left fun f _ => (Field.keepsNames_coveringAny c.fields f).2.1
  rw [hunknown, Field.numbered_append, Field.numbered_map (Field.keepsNames_coveringAny _),
    Field.numbered_map Field.keepsNames_missed, hidentifiers, identifiers_covering,
    unknown_covering]

/-- Where merging the last two records first gives no field another identifier, and where the fields
of each key may be merged in either order, so may the records. -/
theorem covering_assoc
    (hfree : Field.numbered b.identifiers (b.unknown c.fields) = b.unknown c.fields)
    (hassoc : ∀ f ∈ a.fields, ∀ g ∈ b.fields, ∀ h ∈ c.fields, g.sourceKey = f.sourceKey →
      h.sourceKey = f.sourceKey → f.covering m (g.covering m h) = (f.covering m g).covering m h) :
    a.covering m (b.covering m c) = (a.covering m b).covering m c := by
  have hold : a.fields.map (Field.coveringAny m (b.covering m c).fields) =
      (a.fields.map (Field.coveringAny m b.fields)).map (Field.coveringAny m c.fields) := by
    rw [List.map_map]
    exact List.map_congr_left fun f hf => coveringAny_covering hfree (hassoc f hf)
  have hmissed : ∀ fields : List Field,
      (fields.map Field.missed).map Field.missed = fields.map Field.missed := fun fields =>
    List.map_map
  have hnew : ∀ fields : List Field,
      (fields.map (Field.coveringAny m c.fields)).map Field.missed =
        (fields.map Field.missed).map (Field.coveringAny m c.fields) := fun fields => by
    rw [List.map_map, List.map_map]
    exact List.map_congr_left fun f _ => (Field.coveringAny_missed c.fields f).symm
  have hfields := calc (a.covering m (b.covering m c)).fields
    _ = a.fields.map (Field.coveringAny m (b.covering m c).fields) ++
        (Field.numbered a.identifiers (a.unknown (b.covering m c).fields)).map Field.missed := rfl
    _ = (a.covering m b).fields.map (Field.coveringAny m c.fields) ++
        (Field.numbered (a.covering m b).identifiers ((a.covering m b).unknown c.fields)).map
          Field.missed := by
      rw [hold, numbered_unknown_covering a hfree, List.map_append, hnew, hmissed,
        fields_covering a b, List.map_append, List.append_assoc]
    _ = ((a.covering m b).covering m c).fields := rfl
  exact congrArg (Record.mk a.name) hfields

end Record

/-! What it says that no key is numbered -/

theorem noCollision_append {events more : List Event} :
    NoCollision (events ++ more) ↔ NoCollision events ∧ NoCollision more :=
  List.forall_mem_append

theorem Record.renamed_eq_self {r : Record} {f : Field}
    (h : NoCollision (r.addReporting f).events) : r.renamed f = f := by
  by_cases hname : (r.renamed f).identifier = f.identifier
  · cases f
    exact congrArg (fun identifier => Field.mk _ identifier _ _ _) hname
  · rw [addReporting_of_changed hname] at h
    exact absurd (h _ List.mem_cons_self) (by simp [Event.isCollision])

theorem Field.joinsPlainly {f g : Field} {record : String}
    (h : NoCollision (f.merge m record g).events) : JoinsPlainly (f.shape.join? m g.shape) := by
  intro joined hjoin
  rw [Field.merge, hjoin] at h
  exact (noCollision_append.mp h).1

namespace Gathering

variable {g : Gathering} {fields : List Field}

/-- Where nothing is numbered, nothing is in the merges of inner records. -/
theorem noCollision_merge_of_absorbFields (hfields : (fields.map Field.sourceKey).Nodup)
    (h : NoCollision (g.absorbFields m fields).events) :
    ∀ f ∈ fields, ∀ old, g.record.field? f.sourceKey = some old →
      NoCollision (old.merge m g.record.name f).events := by
  induction fields generalizing g with
  | nil => exact fun _ hf => absurd hf List.not_mem_nil
  | cons first fields ih =>
    obtain ⟨hnot, hnodup⟩ := List.nodup_cons.mp hfields
    rw [absorbFields, Reported.events_bind, noCollision_append] at h
    obtain ⟨hnow, hlater⟩ := h
    intro f hf old hold
    rcases List.mem_cons.mp hf with rfl | hrest
    · rw [events_absorbField, hold] at hnow
      exact hnow
    · have hne : first.sourceKey ≠ f.sourceKey := fun he => hnot (he ▸ List.mem_map_of_mem hrest)
      have hsame := field?_absorbField m g first f.sourceKey
      rw [if_neg hne, hold] at hsame
      have hmerge := ih hnodup hlater f hrest old hsame
      rwa [(absorbField_frame g first).1] at hmerge

/-- Where nothing is numbered, the new fields come last as they are. -/
theorem numbered_unknown_of_absorbFields (hfields : (fields.map Field.sourceKey).Nodup)
    (h : NoCollision (g.absorbFields m fields).events) :
    Field.numbered g.record.identifiers (g.record.unknown fields) = g.record.unknown fields := by
  induction fields generalizing g with
  | nil => rfl
  | cons f fields ih =>
    obtain ⟨hnot, hnodup⟩ := List.nodup_cons.mp hfields
    rw [absorbFields, Reported.events_bind, noCollision_append] at h
    obtain ⟨hnow, hlater⟩ := h
    have hrest := ih hnodup hlater
    cases hfound : g.record.field? f.sourceKey with
    | some old =>
      have hknown : f.sourceKey ∈ g.record.sourceKeys := by
        obtain ⟨hold, hkey⟩ := Record.mem_of_field? hfound
        exact hkey ▸ List.mem_map_of_mem hold
      have hbindings := bindings_absorbField_of_some m hfound
      rw [Record.identifiers_eq_bindings, Record.unknown, Record.sourceKeys_eq_bindings, hbindings,
        ← Record.identifiers_eq_bindings, ← Record.sourceKeys_eq_bindings, ← Record.unknown]
        at hrest
      rw [Record.unknown_cons_of_mem hknown]
      exact hrest
    | none =>
      rw [events_absorbField, hfound] at hnow
      have hfirst : Field.numbered g.record.identifiers (f :: g.record.unknown fields) =
          g.record.renamed f :: Field.numbered
            (g.record.identifiers ++ [(g.record.renamed f).identifier])
            (g.record.unknown fields) := rfl
      rw [record_absorbField_of_none m hfound, Record.identifiers_add, Record.unknown_add hnot]
        at hrest
      rw [Record.unknown_cons_of_not_mem (Record.field?_eq_none_iff.mp hfound), hfirst, hrest,
        Record.renamed_eq_self hnow]

end Gathering

namespace Record

variable {a b c : Record}

/-- Merging the second record into the first gives no key another identifier, at any depth. -/
structure MergesPlainly (b c : Record) : Prop where
  inner : ∀ g ∈ b.fields, ∀ h ∈ c.fields, h.sourceKey = g.sourceKey →
    NoCollision (g.merge merge b.name h).events
  own : Field.numbered b.identifiers (b.unknown c.fields) = b.unknown c.fields

theorem MergesPlainly.of_absorbFields {g : Gathering} (hg : g.record.sourceKeys.Nodup)
    (hc : c.sourceKeys.Nodup) (h : NoCollision (g.absorbFields merge c.fields).events) :
    g.record.MergesPlainly c := by
  refine ⟨fun f hf incoming hincoming hkey => ?_,
    Gathering.numbered_unknown_of_absorbFields hc h⟩
  have hfound : g.record.field? incoming.sourceKey = some f := by
    rw [hkey]
    exact field?_of_mem hg hf
  exact Gathering.noCollision_merge_of_absorbFields hc h incoming hincoming f hfound

theorem mergesPlainly_of_noCollision (hb : FieldsDistinct b.records) (hc : FieldsDistinct c.records)
    (h : NoCollision (merge b c).events) : b.MergesPlainly c := by
  have hmerge : merge b c = mergeWith merge b c := merge_eq b c
  rw [hmerge, mergeWith_eq_of_distinct hb.own.1 hb.own.2, Reported.events_map] at h
  exact .of_absorbFields (g := ⟨b, b.fields.map fun _ => 1, 2⟩) hb.own.1 hc.own.1 h

/-- Records may be merged in either order, unless merging the last two first gives a key another
identifier. -/
theorem merge_assoc (ha : FieldsDistinct a.records) (hb : FieldsDistinct b.records)
    (hc : FieldsDistinct c.records) (h : b.MergesPlainly c) :
    (merge a (merge b c).result).result = (merge (merge a b).result c).result := by
  induction b using Record.induct generalizing a c with
  | hstep name fields hinside =>
    have hab := (mergesUp_merge a ⟨name, fields⟩).distinct ha hb
    have hbc := (mergesUp_merge ⟨name, fields⟩ c).distinct hb hc
    rw [result_merge ha hbc, result_merge hab hc, result_merge hb hc, result_merge ha hb]
    have hinnerA := (forall_mem_records.mp ha).2
    have hinnerB := (forall_mem_records.mp hb).2
    have hinnerC := (forall_mem_records.mp hc).2
    refine covering_assoc h.own fun f hf g hg incoming hincoming hgf hkey => ?_
    have hplain := h.inner g hg incoming hincoming (hkey.trans hgf.symm)
    refine Field.covering_assoc (fun r s t hr hs ht hmerged => ?_) (Field.joinsPlainly hplain)
    have hdistinctR : FieldsDistinct r.records := by
      rw [← Shape.records_eq hr]
      exact hinnerA f hf
    have hdistinctS : FieldsDistinct s.records := by
      rw [← Shape.records_eq hs]
      exact hinnerB g hg
    have hdistinctT : FieldsDistinct t.records := by
      rw [← Shape.records_eq ht]
      exact hinnerC incoming hincoming
    exact hinside g hg s hs hdistinctR hdistinctS hdistinctT
      (mergesPlainly_of_noCollision hdistinctS hdistinctT hmerged)

end Record

end Exemplar
