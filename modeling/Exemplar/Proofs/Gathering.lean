import Exemplar.Shape.Merge
import Exemplar.Proofs.Keyed
import Exemplar.Proofs.MergeDepth

/-!
# What a gathering holds

Up to identifiers a gathering is a table: its keys in order, for each key a field, and for each
key the number of examples that had it. Taking in an example changes the table at the keys of the
example and nowhere else. How two fields of one key are merged stays open here.
-/

namespace Exemplar

/-- The shape of a merged field. -/
def Shape.covering (m : RecordMerge) (a b : Shape) : Shape :=
  match a.join? m b with
  | some joined => joined.result
  | none => if a.isSlice && b.isSlice then .anySlice else .any

theorem Field.result_merge (m : RecordMerge) (record : String) (f g : Field) :
    (f.merge m record g).result =
      { f with
        shape := f.shape.covering m g.shape
        optional := f.optional || g.optional || f.shape.isNull != g.shape.isNull
        sample := f.sample.or g.sample } := by
  rw [Field.merge, Shape.covering]
  cases f.shape.join? m g.shape with
  | some joined => rfl
  | none =>
    dsimp only
    split <;> rfl

theorem Record.keyed_renamed (r : Record) (f : Field) : (r.renamed f).keyed = f.keyed := by
  cases f; rfl

namespace Gathering

/-- The table of a gathering. -/
structure Holds (g : Gathering) (keys : List String) (field : String → Field)
    (count : String → Nat) : Prop where
  fields : g.record.fields.map Field.keyed = keys.map field
  seen : g.seen = keys.map count
  sourceKey : ∀ k ∈ keys, (field k).sourceKey = k
  nodup : keys.Nodup

variable {m : RecordMerge} {keys : List String} {field : String → Field}

theorem mergeInto?_eq_none (record : String) {incoming : Field} {fields : List Field}
    (h : incoming.sourceKey ∉ fields.map Field.sourceKey) :
    mergeInto? m record incoming fields = none := by
  induction fields with
  | nil => rfl
  | cons f fields ih =>
    rw [List.map_cons, List.mem_cons, not_or] at h
    rw [mergeInto?, if_neg (Ne.symm h.1), ih h.2]
    rfl

/-- The field of the incoming key is merged and the others stay. -/
theorem mergeInto?_keyed (record : String) {incoming merged : Field} {fields : List Field}
    (hfields : fields.map Field.keyed = keys.map field)
    (hkey : ∀ k ∈ keys, (field k).sourceKey = k) (hnodup : keys.Nodup)
    (hmem : incoming.sourceKey ∈ keys)
    (hmerge : ∀ f : Field, f.keyed = field incoming.sourceKey →
      (f.merge m record incoming).result.keyed = merged) :
    ∃ r, mergeInto? m record incoming fields = some r ∧
      r.result.map Field.keyed =
        keys.map fun k => if k = incoming.sourceKey then merged else field k := by
  induction keys generalizing fields with
  | nil => exact absurd hmem List.not_mem_nil
  | cons k keys ih =>
    obtain ⟨f, fields, rfl⟩ := List.exists_cons_of_length_eq_add_one
      (by simpa using congrArg List.length hfields)
    obtain ⟨hf, hrest⟩ := List.cons.inj hfields
    obtain ⟨hkeyf, hkeys⟩ := List.forall_mem_cons.mp hkey
    obtain ⟨hnot, hnodup⟩ := List.nodup_cons.mp hnodup
    have hfk : f.sourceKey = k := by rw [← Field.keyed_sourceKey, hf, hkeyf]
    by_cases hk : k = incoming.sourceKey
    · rw [mergeInto?, if_pos (hfk.trans hk)]
      refine ⟨_, rfl, ?_⟩
      have htail : keys.map (fun k => if k = incoming.sourceKey then merged else field k) =
          keys.map field := by
        refine List.map_congr_left fun k' hk' => ?_
        rw [if_neg]
        rintro rfl
        exact hnot (hk ▸ hk')
      rw [Reported.result_map, List.map_cons, List.map_cons, if_pos hk, htail,
        hmerge f (by rw [hf, hk]), hrest]
    · obtain ⟨r, hr, hmap⟩ := ih hrest hkeys hnodup
        ((List.mem_cons.mp hmem).resolve_left (Ne.symm hk))
      rw [mergeInto?, if_neg (fun he => hk (hfk.symm.trans he)), hr]
      refine ⟨_, rfl, ?_⟩
      rw [Reported.result_map, List.map_cons, List.map_cons, hmap, if_neg hk, hf]

theorem countKey_keyed (key : String) {count : String → Nat} {fields : List Field}
    (hfields : fields.map Field.keyed = keys.map field)
    (hkey : ∀ k ∈ keys, (field k).sourceKey = k) (hnodup : keys.Nodup) :
    countKey key fields (keys.map count) =
      keys.map fun k => if k = key then count k + 1 else count k := by
  induction keys generalizing fields with
  | nil =>
    rw [List.map_nil, List.map_eq_nil_iff] at hfields
    rw [hfields]
    rfl
  | cons k keys ih =>
    obtain ⟨f, fields, rfl⟩ := List.exists_cons_of_length_eq_add_one
      (by simpa using congrArg List.length hfields)
    obtain ⟨hf, hrest⟩ := List.cons.inj hfields
    obtain ⟨hkeyf, hkeys⟩ := List.forall_mem_cons.mp hkey
    obtain ⟨hnot, hnodup⟩ := List.nodup_cons.mp hnodup
    have hfk : f.sourceKey = k := by rw [← Field.keyed_sourceKey, hf, hkeyf]
    rw [List.map_cons, List.map_cons, countKey, hfk]
    by_cases hk : k = key
    · rw [if_pos hk, if_pos hk]
      congr 1
      refine (List.map_congr_left fun k' hk' => ?_).symm
      rw [if_neg]
      rintro rfl
      exact hnot (hk ▸ hk')
    · rw [if_neg hk, if_neg hk, ih hrest hkeys hnodup]

variable {count : String → Nat} {g : Gathering}

theorem Holds.sourceKeys (h : g.Holds keys field count) :
    g.record.fields.map Field.sourceKey = keys := by
  have hkeys : g.record.fields.map Field.sourceKey =
      (g.record.fields.map Field.keyed).map Field.sourceKey := by
    rw [List.map_map]
    exact List.map_congr_left fun f _ => (Field.keyed_sourceKey f).symm
  rw [hkeys, h.fields, List.map_map]
  exact (List.map_congr_left fun k hk => h.sourceKey k hk).trans (List.map_id _)

/-- A table is read at its keys only. -/
theorem Holds.congr (h : g.Holds keys field count) {field' : String → Field}
    {count' : String → Nat} (hf : ∀ k ∈ keys, field k = field' k)
    (hc : ∀ k ∈ keys, count k = count' k) : g.Holds keys field' count' where
  fields := h.fields.trans (List.map_congr_left hf)
  seen := h.seen.trans (List.map_congr_left hc)
  sourceKey k hk := by rw [← hf k hk, h.sourceKey k hk]
  nodup := h.nodup

/-- One field of a known key. -/
theorem Holds.absorbField_mem (h : g.Holds keys field count) {incoming merged : Field}
    (hmem : incoming.sourceKey ∈ keys) (hkey : merged.sourceKey = incoming.sourceKey)
    (hmerge : ∀ f : Field, f.keyed = field incoming.sourceKey →
      (f.merge m g.record.name incoming).result.keyed = merged) :
    (g.absorbField m incoming).result.Holds keys
      (fun k => if k = incoming.sourceKey then merged else field k)
      (fun k => if k = incoming.sourceKey then count k + 1 else count k) := by
  obtain ⟨r, hr, hmap⟩ :=
    mergeInto?_keyed g.record.name h.fields h.sourceKey h.nodup hmem hmerge
  rw [absorbField, hr]
  refine ⟨hmap, ?_, ?_, h.nodup⟩
  · have hseen : countKey incoming.sourceKey g.record.fields (keys.map count) = _ :=
      countKey_keyed incoming.sourceKey h.fields h.sourceKey h.nodup
    rw [← h.seen] at hseen
    exact hseen
  · intro k hk
    by_cases he : k = incoming.sourceKey
    · rw [if_pos he, hkey, he]
    · rw [if_neg he, h.sourceKey k hk]

/-- One field of a new key. -/
theorem Holds.absorbField_not_mem (h : g.Holds keys field count) {incoming : Field}
    (hnot : incoming.sourceKey ∉ keys) :
    (g.absorbField m incoming).result.Holds (keys ++ [incoming.sourceKey])
      (fun k => if k = incoming.sourceKey then incoming.keyed else field k)
      (fun k => if k = incoming.sourceKey then 1 else count k) := by
  have hnone := mergeInto?_eq_none (m := m) g.record.name (h.sourceKeys.symm ▸ hnot)
  have hne : ∀ k ∈ keys, k ≠ incoming.sourceKey := fun k hk he => hnot (he ▸ hk)
  have hadd : ((g.record.addReporting incoming).result.fields).map Field.keyed =
      keys.map field ++ [incoming.keyed] := by
    rw [Record.result_addReporting, Record.add, List.map_append, h.fields, List.map_singleton,
      Record.keyed_renamed]
  rw [absorbField, hnone]
  refine ⟨?_, ?_, ?_, ?_⟩
  · rw [List.map_append, List.map_singleton, if_pos rfl]
    refine hadd.trans (congrArg (· ++ _) (List.map_congr_left fun k hk => ?_))
    rw [if_neg (hne k hk)]
  · rw [List.map_append, List.map_singleton, if_pos rfl]
    change g.seen ++ [1] = _
    rw [h.seen]
    refine congrArg (· ++ _) (List.map_congr_left fun k hk => ?_)
    rw [if_neg (hne k hk)]
  · intro k hk
    by_cases he : k = incoming.sourceKey
    · rw [if_pos he, Field.keyed_sourceKey, he]
    · rw [if_neg he]
      exact h.sourceKey k ((List.mem_append.mp hk).resolve_right fun hs =>
        he (List.mem_singleton.mp hs))
  · rw [List.nodup_append]
    refine ⟨h.nodup, by simp, ?_⟩
    intro k hk k' hk'
    rw [List.mem_singleton.mp hk']
    exact hne k hk

/-- One field. At a key that the table has the fields are merged, at a new key the field is
taken. -/
theorem Holds.absorbField (h : g.Holds keys field count) {key : String} {incoming merged : Field}
    (hkey : incoming.sourceKey = key) (hmergedKey : merged.sourceKey = key)
    (hmerge : key ∈ keys → ∀ f : Field, f.keyed = field key →
      (f.merge m g.record.name incoming).result.keyed = merged)
    (hnew : key ∉ keys → merged = incoming.keyed) :
    (g.absorbField m incoming).result.Holds (keys ++ [key].filter fun k => !keys.contains k)
      (fun k => if k = key then merged else field k)
      (fun k => if k = key then (if k ∈ keys then count k else 0) + 1 else count k) := by
  subst hkey
  by_cases hmem : incoming.sourceKey ∈ keys
  · have hstep := h.absorbField_mem hmem hmergedKey (hmerge hmem)
    have hfilter : [incoming.sourceKey].filter (fun k => !keys.contains k) = [] := by
      simp [hmem]
    rw [hfilter, List.append_nil]
    refine hstep.congr (fun _ _ => rfl) fun k hk => ?_
    rw [if_pos hk]
  · have hstep := h.absorbField_not_mem (m := m) hmem
    have hfilter : [incoming.sourceKey].filter (fun k => !keys.contains k) =
        [incoming.sourceKey] := by
      simp [hmem]
    rw [hfilter]
    refine hstep.congr (fun k _ => by rw [hnew hmem]) fun k _ => ?_
    by_cases he : k = incoming.sourceKey
    · rw [if_pos he, if_pos he, if_neg (he ▸ hmem)]
    · rw [if_neg he, if_neg he]

theorem absorbField_frame (g : Gathering) (f : Field) :
    (g.absorbField m f).result.record.name = g.record.name ∧
      (g.absorbField m f).result.examples = g.examples := by
  rw [Gathering.absorbField]
  split
  · exact ⟨rfl, rfl⟩
  · refine ⟨?_, rfl⟩
    change (g.record.addReporting f).result.name = _
    rw [Record.result_addReporting]
    rfl

theorem absorbFields_frame (g : Gathering) (fields : List Field) :
    (g.absorbFields m fields).result.record.name = g.record.name ∧
      (g.absorbFields m fields).result.examples = g.examples := by
  induction fields generalizing g with
  | nil => exact ⟨rfl, rfl⟩
  | cons f fields ih =>
    obtain ⟨hname, hexamples⟩ := absorbField_frame (m := m) g f
    obtain ⟨hname', hexamples'⟩ := ih (g.absorbField m f).result
    exact ⟨hname'.trans hname, hexamples'.trans hexamples⟩

private theorem extend_cons (keys : List String) {key : String} {added : List String}
    (hnot : key ∉ added) :
    (∀ k ∈ added, (k ∈ keys ++ [key].filter fun k => !keys.contains k) ↔ k ∈ keys) ∧
      (keys ++ [key].filter fun k => !keys.contains k) ++
          (added.filter fun k => !(keys ++ [key].filter fun k => !keys.contains k).contains k) =
        keys ++ (key :: added).filter fun k => !keys.contains k := by
  have hknown : ∀ k ∈ added,
      (k ∈ keys ++ [key].filter fun k => !keys.contains k) ↔ k ∈ keys := by
    intro k hk
    have hne : k ≠ key := fun he => hnot (he ▸ hk)
    simp [hne]
  refine ⟨hknown, ?_⟩
  have hcongr : (added.filter fun k =>
      !(keys ++ [key].filter fun k => !keys.contains k).contains k) =
      added.filter fun k => !keys.contains k := by
    refine List.filter_congr fun k hk => ?_
    rw [List.contains_eq_mem, List.contains_eq_mem, decide_eq_decide.mpr (hknown k hk)]
  rw [hcongr, List.append_assoc, ← List.filter_append, List.singleton_append]

/-- A table that is changed at one key and then at others is changed at all of them. -/
private theorem ite_mem_cons {α : Type} (key : String) (added : List String) (f g : String → α)
    (k : String) :
    (if k ∈ added then f k else if k = key then f key else g k) =
      if k ∈ key :: added then f k else g k := by
  by_cases hk : k ∈ added
  · rw [if_pos hk, if_pos (List.mem_cons_of_mem _ hk)]
  · by_cases he : k = key
    · subst he
      rw [if_neg hk, if_pos rfl, if_pos List.mem_cons_self]
    · rw [if_neg hk, if_neg he, if_neg (by simp [he, hk])]

/-- The fields of an example, one after another. -/
theorem Holds.absorbFields (h : g.Holds keys field count) {added : List String}
    {incoming : String → Field} (merged : String → Field) {fields : List Field}
    (hfields : fields.map Field.keyed = added.map incoming)
    (hkey : ∀ k ∈ added, (incoming k).sourceKey = k) (hnodup : added.Nodup)
    (hmergedKey : ∀ k ∈ added, (merged k).sourceKey = k)
    (hmerge : ∀ k ∈ added, k ∈ keys → ∀ f f' : Field, f.keyed = field k →
      f'.keyed = incoming k → (f.merge m g.record.name f').result.keyed = merged k)
    (hnew : ∀ k ∈ added, k ∉ keys → merged k = incoming k) :
    (g.absorbFields m fields).result.Holds (keys ++ added.filter fun k => !keys.contains k)
      (fun k => if k ∈ added then merged k else field k)
      (fun k => if k ∈ added then (if k ∈ keys then count k else 0) + 1 else count k) := by
  induction added generalizing g keys field count fields with
  | nil =>
    rw [List.map_nil, List.map_eq_nil_iff] at hfields
    rw [hfields, List.filter_nil, List.append_nil]
    exact h.congr (fun k _ => by simp) (fun k _ => by simp)
  | cons key added ih =>
    obtain ⟨f, fields, rfl⟩ := List.exists_cons_of_length_eq_add_one
      (by simpa using congrArg List.length hfields)
    obtain ⟨hf, hrest⟩ := List.cons.inj hfields
    obtain ⟨hkeyf, hkeys⟩ := List.forall_mem_cons.mp hkey
    obtain ⟨hmergedKeyf, hmergedKeys⟩ := List.forall_mem_cons.mp hmergedKey
    obtain ⟨hmergef, hmerges⟩ := List.forall_mem_cons.mp hmerge
    obtain ⟨hnewf, hnews⟩ := List.forall_mem_cons.mp hnew
    obtain ⟨hnot, hnodup⟩ := List.nodup_cons.mp hnodup
    have hne : ∀ k ∈ added, k ≠ key := fun k hk he => hnot (he ▸ hk)
    have hfk : f.sourceKey = key := by rw [← Field.keyed_sourceKey, hf, hkeyf]
    obtain ⟨hname, -⟩ := absorbField_frame (m := m) g f
    have hstep := h.absorbField (m := m) hfk hmergedKeyf
      (fun hmem f₀ hf₀ => hmergef hmem f₀ f hf₀ hf) (fun hmem => (hnewf hmem).trans hf.symm)
    -- the rest of the fields meets a table that has changed at `key` only
    obtain ⟨hknown, hextend⟩ := extend_cons keys hnot
    have hih := ih hstep hrest hkeys hnodup hmergedKeys
      (fun k hk hmem f₀ f' hf₀ hf' => by
        rw [if_neg (hne k hk)] at hf₀
        rw [hname]
        exact hmerges k hk ((hknown k hk).mp hmem) f₀ f' hf₀ hf')
      (fun k hk hmem => hnews k hk fun hin => hmem ((hknown k hk).mpr hin))
    rw [hextend] at hih
    refine hih.congr (fun k _ => ite_mem_cons key added merged field k) fun k _ => ?_
    refine Eq.trans ?_
      (ite_mem_cons key added (fun k => (if k ∈ keys then count k else 0) + 1) count k)
    by_cases hk : k ∈ added
    · simp only [if_pos hk, if_neg (hne k hk), hknown k hk]
    · rw [if_neg hk, if_neg hk]
      exact ite_congr rfl (fun he => by rw [he]) fun _ => rfl

theorem Holds.withPresence {examples : Nat} {fields : List Field} {seen : List Nat}
    (hfields : fields.map Field.keyed = keys.map field) (hseen : seen = keys.map count) :
    (Gathering.withPresence examples fields seen).map Field.keyed =
      keys.map fun k => { field k with optional := (field k).optional || count k < examples } := by
  induction keys generalizing fields seen with
  | nil =>
    rw [List.map_nil, List.map_eq_nil_iff] at hfields
    rw [hfields, hseen]
    rfl
  | cons k keys ih =>
    obtain ⟨f, fields, rfl⟩ := List.exists_cons_of_length_eq_add_one
      (by simpa using congrArg List.length hfields)
    obtain ⟨hf, hrest⟩ := List.cons.inj hfields
    rw [hseen, List.map_cons, List.map_cons, Gathering.withPresence, List.map_cons,
      ih hrest rfl, ← hf]
    cases f
    rfl

/-- The record that a gathering ends with. -/
theorem Holds.keyed_finish (h : g.Holds keys field count) :
    g.finish.keyed = ⟨g.record.name, keys.map fun k =>
      { field k with optional := (field k).optional || count k < g.examples }⟩ := by
  rw [Record.keyed_eq_mk, finish]
  exact congrArg _ (Holds.withPresence h.fields h.seen)

theorem holds_start (name : String) (field : String → Field) (count : String → Nat) :
    (start name).Holds [] field count where
  fields := rfl
  seen := rfl
  sourceKey := by simp
  nodup := List.nodup_nil

end Gathering

end Exemplar
