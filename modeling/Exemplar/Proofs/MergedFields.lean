import Exemplar.Proofs.FieldSteps
import Exemplar.Proofs.SelfMerge

/-!
# A merge, seen at once

A gathering takes in the fields of an example one by one. All together they do three things: fields
whose keys the example has are joined with its fields, the other fields become optional, and fields
with new keys come last, numbered where their identifiers are in use. `Record.covering` says so in
one go, for two records and for a gathering that takes in one more example.
-/

namespace Exemplar

variable {m : RecordMerge}

/-- A field that covers another one of its key. -/
def Field.covering (m : RecordMerge) (f g : Field) : Field :=
  { f with
    shape := f.shape.covering m g.shape
    optional := f.optional || g.optional || f.shape.isNull != g.shape.isNull
    sample := f.sample.or g.sample }

/-- A field that some example lacks. -/
def Field.missed (f : Field) : Field :=
  { f with optional := true }

/-- A field that covers what an example with the given fields has under its key. -/
def Field.coveringAny (m : RecordMerge) (fields : List Field) (f : Field) : Field :=
  match fields.find? (·.sourceKey = f.sourceKey) with
  | some g => f.covering m g
  | none => f.missed

/-- Fields that are added one after another where some identifiers are taken. -/
def Field.numbered (taken : List String) : List Field → List Field
  | [] => []
  | f :: fields =>
    let identifier := Fresh.name taken f.identifier
    { f with identifier } :: numbered (taken ++ [identifier]) fields

/-- The fields whose keys a record does not have. -/
def Record.unknown (r : Record) (fields : List Field) : List Field :=
  fields.filter fun f => !r.sourceKeys.contains f.sourceKey

/-- A record that covers another one. -/
def Record.covering (m : RecordMerge) (a b : Record) : Record :=
  ⟨a.name, a.fields.map (Field.coveringAny m b.fields) ++
    (Field.numbered a.identifiers (a.unknown b.fields)).map Field.missed⟩

namespace Record

theorem sourceKeys_add (r : Record) (f : Field) :
    (r.add f).1.sourceKeys = r.sourceKeys ++ [f.sourceKey] :=
  List.map_append

theorem identifiers_add (r : Record) (f : Field) :
    (r.add f).1.identifiers = r.identifiers ++ [(r.renamed f).identifier] :=
  List.map_append

variable {r : Record} {f : Field} {fields : List Field}

theorem unknown_cons_of_mem (h : f.sourceKey ∈ r.sourceKeys) :
    r.unknown (f :: fields) = r.unknown fields :=
  List.filter_cons_of_neg (by simpa using h)

theorem unknown_cons_of_not_mem (h : f.sourceKey ∉ r.sourceKeys) :
    r.unknown (f :: fields) = f :: r.unknown fields :=
  List.filter_cons_of_pos (by simpa using h)

theorem unknown_add (h : f.sourceKey ∉ fields.map Field.sourceKey) :
    (r.add f).1.unknown fields = r.unknown fields := by
  refine List.filter_congr fun g hg => ?_
  have hne : g.sourceKey ≠ f.sourceKey := fun he => h (he ▸ List.mem_map_of_mem hg)
  rw [sourceKeys_add]
  simp [hne]

end Record

namespace Gathering

/-- A gathering with the given fields, each with its count. -/
def ofRows (name : String) (rows : List (Field × Nat)) (examples : Nat) : Gathering :=
  ⟨⟨name, rows.map Prod.fst⟩, rows.map Prod.snd, examples⟩

/-- What becomes of a field and its count when an example with the given fields is taken in. -/
def countedIn (m : RecordMerge) (fields : List Field) (row : Field × Nat) : Field × Nat :=
  match fields.find? (·.sourceKey = row.1.sourceKey) with
  | some g => (row.1.covering m g, row.2 + 1)
  | none => row

variable {name : String} {rows : List (Field × Nat)} {examples : Nat}

theorem sourceKeys_ofRows :
    (ofRows name rows examples).record.sourceKeys = rows.map fun row => row.1.sourceKey :=
  List.map_map

theorem identifiers_ofRows :
    (ofRows name rows examples).record.identifiers = rows.map fun row => row.1.identifier :=
  List.map_map

theorem countedIn_of_not_mem {fields : List Field} {row : Field × Nat}
    (h : row.1.sourceKey ∉ fields.map Field.sourceKey) : countedIn m fields row = row := by
  have hnone : fields.find? (·.sourceKey = row.1.sourceKey) = none := by
    simpa using h
  rw [countedIn, hnone]

theorem countedIn_cons_self {f : Field} {fields : List Field} {row : Field × Nat}
    (h : row.1.sourceKey = f.sourceKey) :
    countedIn m (f :: fields) row = (row.1.covering m f, row.2 + 1) := by
  rw [countedIn, List.find?_cons_of_pos (by simpa using h.symm)]

theorem countedIn_cons_of_ne {f : Field} {fields : List Field} {row : Field × Nat}
    (h : row.1.sourceKey ≠ f.sourceKey) :
    countedIn m (f :: fields) row = countedIn m fields row := by
  rw [countedIn, List.find?_cons_of_neg (by simpa using h.symm), countedIn]

/-- An example is counted field by field. -/
theorem countedIn_countedIn {f : Field} {fields : List Field}
    (h : f.sourceKey ∉ fields.map Field.sourceKey) (row : Field × Nat) :
    countedIn m fields (countedIn m [f] row) = countedIn m (f :: fields) row := by
  by_cases hkey : row.1.sourceKey = f.sourceKey
  · rw [countedIn_cons_self hkey, countedIn_cons_self hkey]
    refine countedIn_of_not_mem ?_
    rw [← hkey] at h
    exact h
  · rw [countedIn_cons_of_ne hkey, countedIn_cons_of_ne hkey]
    rfl

/-- Counting changes neither key nor identifier. -/
theorem countedIn_frame (fields : List Field) (row : Field × Nat) :
    (countedIn m fields row).1.sourceKey = row.1.sourceKey ∧
      (countedIn m fields row).1.identifier = row.1.identifier := by
  rw [countedIn]
  split <;> exact ⟨rfl, rfl⟩

variable (m) in
theorem sourceKeys_ofRows_countedIn (fields : List Field) :
    (ofRows name (rows.map (countedIn m fields)) examples).record.sourceKeys =
      (ofRows name rows examples).record.sourceKeys := by
  rw [sourceKeys_ofRows, sourceKeys_ofRows, List.map_map]
  exact List.map_congr_left fun row _ => (countedIn_frame fields row).1

theorem identifiers_ofRows_countedIn (fields : List Field) :
    (ofRows name (rows.map (countedIn m fields)) examples).record.identifiers =
      (ofRows name rows examples).record.identifiers := by
  rw [identifiers_ofRows, identifiers_ofRows, List.map_map]
  exact List.map_congr_left fun row _ => (countedIn_frame fields row).2

/-- A field whose key is known. -/
theorem absorbField_ofRows_of_mem {f : Field}
    (hnodup : (ofRows name rows examples).record.sourceKeys.Nodup)
    (hmem : f.sourceKey ∈ (ofRows name rows examples).record.sourceKeys) :
    ((ofRows name rows examples).absorbField m f).result =
      ofRows name (rows.map (countedIn m [f])) examples := by
  rw [absorbField]
  cases hmerge : mergeInto? m (ofRows name rows examples).record.name f
      (ofRows name rows examples).record.fields with
  | none => exact absurd hmem (not_mem_of_mergeInto?_eq_none hmerge)
  | some merged =>
    obtain ⟨before, old, after, hfields, hbefore, hold, hresult, -⟩ := mergeInto?_cases hmerge
    obtain ⟨first, rest, rfl, rfl, hrest⟩ := List.map_eq_append_iff.mp hfields
    obtain ⟨⟨old, n⟩, last, rfl, rfl, rfl⟩ := List.map_eq_cons_iff.mp hrest
    have hafter : f.sourceKey ∉ (last.map Prod.fst).map Field.sourceKey := by
      rw [Record.sourceKeys, hfields, List.map_append, List.map_cons] at hnodup
      exact hold ▸ (List.nodup_cons.mp (List.nodup_append.mp hnodup).2.1).1
    -- all other fields have other keys
    have hsame : ∀ {others : List (Field × Nat)},
        f.sourceKey ∉ (others.map Prod.fst).map Field.sourceKey →
          others.map (countedIn m [f]) = others := fun hothers =>
      (List.map_congr_left fun row hrow => countedIn_of_not_mem (by
        simp only [List.map_map, List.mem_map] at hothers
        simpa using fun he => hothers ⟨row, hrow, he⟩)).trans (List.map_id _)
    have hcounts : countKey f.sourceKey (first.map Prod.fst ++ old :: last.map Prod.fst)
        (first.map Prod.snd ++ n :: last.map Prod.snd) =
          first.map Prod.snd ++ (n + 1) :: last.map Prod.snd := by
      rw [← hold] at hbefore ⊢
      exact countKey_append hbefore (by simp) n
    rw [List.map_append, List.map_cons, hsame hbefore, hsame hafter, countedIn_cons_self hold]
    rw [Field.result_merge] at hresult
    simp only [Reported.result_bind, Reported.result_pure, hresult, ofRows, List.map_append,
      List.map_cons, hcounts]
    rfl

/-- A field whose key is new. -/
theorem absorbField_ofRows_of_not_mem {f : Field}
    (hnot : f.sourceKey ∉ (ofRows name rows examples).record.sourceKeys) :
    ((ofRows name rows examples).absorbField m f).result =
      ofRows name (rows ++ [((ofRows name rows examples).record.renamed f, 1)]) examples := by
  rw [absorbField, mergeInto?_eq_none _ hnot, Reported.result_bind, Record.result_addReporting]
  simp [ofRows, Record.add]

theorem record_ofRows_append (f : Field) :
    (ofRows name (rows ++ [((ofRows name rows examples).record.renamed f, 1)]) examples).record =
      ((ofRows name rows examples).record.add f).1 := by
  simp [ofRows, Record.add]

/-- All fields of an example. -/
theorem absorbFields_ofRows {fields : List Field}
    (hnodup : (ofRows name rows examples).record.sourceKeys.Nodup)
    (hfields : (fields.map Field.sourceKey).Nodup) :
    ((ofRows name rows examples).absorbFields m fields).result =
      ofRows name (rows.map (countedIn m fields) ++
        (Field.numbered (ofRows name rows examples).record.identifiers
          ((ofRows name rows examples).record.unknown fields)).map fun f => (f, 1)) examples := by
  induction fields generalizing rows with
  | nil =>
    have hsame : rows.map (countedIn m []) = rows :=
      List.map_congr_left (fun row _ => rfl) |>.trans (List.map_id _)
    rw [hsame]
    simp [absorbFields, Record.unknown, Field.numbered]
  | cons f fields ih =>
    obtain ⟨hnot, hnodup'⟩ := List.nodup_cons.mp hfields
    rw [absorbFields, Reported.result_bind]
    by_cases hmem : f.sourceKey ∈ (ofRows name rows examples).record.sourceKeys
    · have hrows : (rows.map (countedIn m [f])).map (countedIn m fields) =
          rows.map (countedIn m (f :: fields)) := by
        rw [List.map_map]
        exact List.map_congr_left fun row _ => countedIn_countedIn hnot row
      have hkeys : (ofRows name (rows.map (countedIn m [f])) examples).record.sourceKeys =
          (ofRows name rows examples).record.sourceKeys := sourceKeys_ofRows_countedIn m [f]
      have hunknown : (ofRows name (rows.map (countedIn m [f])) examples).record.unknown fields =
          (ofRows name rows examples).record.unknown fields := by
        rw [Record.unknown, Record.unknown, hkeys]
      rw [absorbField_ofRows_of_mem hnodup hmem, ih (hkeys.symm ▸ hnodup) hnodup', hrows, hunknown,
        identifiers_ofRows_countedIn, Record.unknown_cons_of_mem hmem]
    · have hrows : rows.map (countedIn m (f :: fields)) = rows.map (countedIn m fields) := by
        refine List.map_congr_left fun row hrow => countedIn_cons_of_ne fun he => hmem ?_
        rw [sourceKeys_ofRows, ← he]
        exact List.mem_map_of_mem hrow
      have hadded : countedIn m fields ((ofRows name rows examples).record.renamed f, 1) =
          ((ofRows name rows examples).record.renamed f, 1) := countedIn_of_not_mem hnot
      have hnext := Record.stable_keys.add f hnodup hmem
      rw [← record_ofRows_append] at hnext
      rw [absorbField_ofRows_of_not_mem hmem, ih hnext hnodup', record_ofRows_append,
        Record.identifiers_add, Record.unknown_add hnot, Record.unknown_cons_of_not_mem hmem, hrows,
        List.map_append, List.map_singleton, hadded, Field.numbered, List.map_cons,
        List.append_assoc]
      rfl

theorem absorb_ofRows {b : Record}
    (hnodup : (ofRows name rows examples).record.sourceKeys.Nodup) (hb : b.sourceKeys.Nodup) :
    ((ofRows name rows examples).absorb m b).result =
      ofRows name (rows.map (countedIn m b.fields) ++
        (Field.numbered (ofRows name rows examples).record.identifiers
          ((ofRows name rows examples).record.unknown b.fields)).map fun f => (f, 1))
        (examples + 1) :=
  absorbFields_ofRows hnodup hb

/-- A field as it stands in the end: it is optional also if it was counted too rarely. -/
def asCounted (examples : Nat) (row : Field × Nat) : Field :=
  { row.1 with optional := row.1.optional || row.2 < examples }

theorem finish_ofRows :
    (ofRows name rows examples).finish = ⟨name, rows.map (asCounted examples)⟩ := by
  have hpresence : withPresence examples (rows.map Prod.fst) (rows.map Prod.snd) =
      rows.map (asCounted examples) := by
    induction rows with
    | nil => rfl
    | cons row rows ih =>
      rw [List.map_cons, List.map_cons, List.map_cons, withPresence, ih]
      rfl
  rw [finish, ofRows, hpresence]

/-- One more example, for a field that was there. -/
theorem asCounted_countedIn {fields : List Field} {row : Field × Nat} (h : row.2 ≤ examples) :
    asCounted (examples + 1) (countedIn m fields row) =
      Field.coveringAny m fields (asCounted examples row) := by
  have hkey : (asCounted examples row).sourceKey = row.1.sourceKey := rfl
  rw [countedIn, Field.coveringAny, hkey]
  cases fields.find? (·.sourceKey = row.1.sourceKey) with
  | some g =>
    simp only [asCounted, Field.covering, Nat.add_lt_add_iff_right]
    rw [Bool.or_right_comm, Bool.or_right_comm row.1.optional]
  | none =>
    have hlt : row.2 < examples + 1 := Nat.lt_succ_of_le h
    simp [asCounted, Field.missed, hlt]

/-- One more example is merged into the record of those before. -/
theorem finish_absorb_ofRows {b : Record}
    (hnodup : (ofRows name rows examples).record.sourceKeys.Nodup) (hb : b.sourceKeys.Nodup)
    (hpos : 0 < examples) (hcounts : ∀ row ∈ rows, row.2 ≤ examples) :
    ((ofRows name rows examples).absorb m b).result.finish =
      (ofRows name rows examples).finish.covering m b := by
  rw [Record.covering, Record.unknown, sourceKeys_finish, identifiers_finish, finish_ofRows]
  have hold : (rows.map (countedIn m b.fields)).map (asCounted (examples + 1)) =
      (rows.map (asCounted examples)).map (Field.coveringAny m b.fields) := by
    rw [List.map_map, List.map_map]
    exact List.map_congr_left fun row hrow => asCounted_countedIn (hcounts row hrow)
  have hnew : ∀ fields : List Field,
      (fields.map fun f => (f, 1)).map (asCounted (examples + 1)) = fields.map Field.missed := by
    intro fields
    rw [List.map_map]
    refine List.map_congr_left fun f _ => ?_
    simp [asCounted, Field.missed, hpos]
  rw [absorb_ofRows hnodup hb, finish_ofRows, List.map_append, hold, hnew]
  rfl

/-- Fields that have been seen in the only example. -/
theorem ofRows_once (r : Record) :
    ofRows r.name (r.fields.map fun f => (f, 1)) 1 = ⟨r, r.fields.map fun _ => 1, 1⟩ := by
  cases r with
  | mk name fields =>
    rw [ofRows, List.map_map, List.map_map]
    exact congrArg (fun first => Gathering.mk ⟨name, first⟩ _ 1) (List.map_id fields)

theorem finish_ofRows_once (r : Record) :
    (ofRows r.name (r.fields.map fun f => (f, 1)) 1).finish = r := by
  cases r with
  | mk name fields =>
    rw [finish_ofRows, List.map_map]
    refine congrArg (Record.mk name) ((List.map_congr_left fun f _ => ?_).trans (List.map_id _))
    cases f
    simp [asCounted]

end Gathering

theorem FieldsDistinct.own {r : Record} (h : FieldsDistinct r.records) :
    r.sourceKeys.Nodup ∧ r.identifiers.Nodup :=
  h r r.self_mem_records

/-- The merge of two records with distinct fields. -/
theorem Record.result_merge {a b : Record} (ha : FieldsDistinct a.records)
    (hb : FieldsDistinct b.records) : (merge a b).result = a.covering merge b := by
  have hmerge : merge a b = mergeWith merge a b := merge_eq a b
  have hrows : (Gathering.ofRows a.name (a.fields.map fun f => (f, 1)) 1).record = a := by
    rw [Gathering.ofRows_once]
  have hfinished := Gathering.finish_absorb_ofRows (m := merge) (hrows.symm ▸ ha.own.1) hb.own.1
    Nat.one_pos (List.forall_mem_map.mpr fun _ _ => Nat.le_refl 1)
  rw [Gathering.finish_ofRows_once, Gathering.ofRows_once] at hfinished
  rw [hmerge, mergeWith_eq_of_distinct ha.own.1 ha.own.2, Reported.result_map, hfinished]

end Exemplar
