import Exemplar.Proofs.Covering

/-!
# Merging summaries

The record merged from the records of two groups of examples is the record of all of them: nothing
depends on how examples are grouped. A gathering that has taken in the summaries of some groups
is described exactly by the groups, one key at a time; two shapes are joined to the shape of all
their values. Each of the two facts needs the other one level further down.
-/

namespace Exemplar.Summary

variable {initialisms : Initialisms}

/-- The field of a key before the end of a gathering. A group of examples that has the key in some
examples only has made it optional already; groups without the key still count for nothing. -/
def groupField (initialisms : Initialisms) (groups : List (List (List (String × Value))))
    (key : String) : Field where
  sourceKey := key
  identifier := ""
  shape := shape initialisms (Identifier.ofKey initialisms key)
    (Examples.observed key groups.flatten)
  optional := (groups.any fun group =>
      (Examples.keys group).contains key && Examples.lacks key group) ||
    mixesNull (Examples.observed key groups.flatten)
  sample := sample? (Examples.observed key groups.flatten)

/-- A gathering has taken in the summaries of groups of examples. -/
structure Gathered (initialisms : Initialisms) (name : String)
    (groups : List (List (List (String × Value)))) (g : Gathering) : Prop where
  name : g.record.name = name
  examples : g.examples = groups.length
  holds : g.Holds (Examples.keys groups.flatten) (groupField initialisms groups)
    fun key => groups.countP fun group => (Examples.keys group).contains key

theorem gathered_start (name : String) :
    Gathered initialisms name [] (Gathering.start name) where
  name := rfl
  examples := rfl
  holds := Gathering.holds_start name _ _

theorem mixesNull_append {vs ws : List Value} (hv : vs ≠ []) (hw : ws ≠ []) :
    mixesNull (vs ++ ws) =
      (mixesNull vs || mixesNull ws || vs.all Value.isNull != ws.all Value.isNull) := by
  have hany : ∀ {us : List Value}, us ≠ [] → us.all Value.isNull → us.any Value.isNull := by
    intro us hne hall
    obtain ⟨u, us, rfl⟩ := List.exists_cons_of_ne_nil hne
    rw [List.all_cons, Bool.and_eq_true] at hall
    rw [List.any_cons, hall.1, Bool.true_or]
  rw [mixesNull, mixesNull, mixesNull, List.any_append, List.all_append]
  have hv' := hany hv
  have hw' := hany hw
  cases hva : vs.all Value.isNull <;> cases hwa : ws.all Value.isNull <;> simp_all

theorem sample?_append (vs ws : List Value) :
    sample? (vs ++ ws) = (sample? vs).or (sample? ws) := List.findSome?_append

theorem observed_flatten_append (key : String) (groups : List (List (List (String × Value))))
    (group : List (List (String × Value))) :
    Examples.observed key (groups ++ [group]).flatten =
      Examples.observed key groups.flatten ++ Examples.observed key group := by
  rw [List.flatten_append, Examples.observed_append, List.flatten_singleton]

theorem isNull_of_keyed {a : Shape} {name : String} {values : List Value}
    (h : a.keyed = shape initialisms name values) : a.isNull = values.all Value.isNull := by
  rw [← isNull_shape initialisms name, ← h, Shape.isNull_keyed]

variable {m : RecordMerge} {groups : List (List (List (String × Value)))}
  {group : List (List (String × Value))} {key : String}

/-- Merging the fields of a key that the groups so far and the next one all have. -/
theorem keyed_merge_groupField (record : String) {f f' : Field}
    (hf : f.keyed = groupField initialisms groups key)
    (hf' : f'.keyed = field initialisms group key)
    (hmem : key ∈ Examples.keys groups.flatten) (hgroup : key ∈ Examples.keys group)
    (hshape : (f.shape.covering m f'.shape).keyed =
      shape initialisms (Identifier.ofKey initialisms key)
        (Examples.observed key groups.flatten ++ Examples.observed key group)) :
    (f.merge m record f').result.keyed = groupField initialisms (groups ++ [group]) key := by
  have hv : Examples.observed key groups.flatten ≠ [] := fun he =>
    (Examples.observed_eq_nil_iff key _).mp he hmem
  have hw : Examples.observed key group ≠ [] := fun he =>
    (Examples.observed_eq_nil_iff key _).mp he hgroup
  rw [Field.keyed_eq_mk] at hf hf'
  obtain ⟨hkey, -, hshapef, hoptional, hsample⟩ := Field.mk.inj hf
  obtain ⟨-, -, hshapef', hoptional', hsample'⟩ := Field.mk.inj hf'
  have hcontains : (Examples.keys group).contains key = true := by simpa using hgroup
  rw [Field.result_merge, Field.keyed_eq_mk, groupField, observed_flatten_append]
  congr 1
  · rw [hoptional, hoptional', isNull_of_keyed hshapef, isNull_of_keyed hshapef',
      mixesNull_append hv hw, List.any_append, List.any_cons, List.any_nil, hcontains]
    simp only [Bool.true_and, Bool.or_false]
    ac_rfl
  · rw [hsample, hsample', sample?_append]

theorem groupField_of_not_mem_keys (h : key ∉ Examples.keys group) :
    groupField initialisms (groups ++ [group]) key = groupField initialisms groups key := by
  have hnil := (Examples.observed_eq_nil_iff key group).mpr h
  have hcontains : (Examples.keys group).contains key = false := by simpa using h
  rw [groupField, groupField, observed_flatten_append, hnil, List.append_nil, List.any_append,
    List.any_cons, List.any_nil, hcontains, Bool.false_and, Bool.or_false, Bool.or_false]

theorem groupField_of_not_mem_flatten (h : key ∉ Examples.keys groups.flatten)
    (hgroup : key ∈ Examples.keys group) :
    groupField initialisms (groups ++ [group]) key = field initialisms group key := by
  have hnil := (Examples.observed_eq_nil_iff key groups.flatten).mpr h
  have hcontains : (Examples.keys group).contains key = true := by simpa using hgroup
  have hany : (groups.any fun group =>
      (Examples.keys group).contains key && Examples.lacks key group) = false := by
    refine List.any_eq_false.mpr fun other hother => ?_
    have hnot : key ∉ Examples.keys other := fun hin =>
      h (Examples.mem_keys_flatten.mpr ⟨other, hother, hin⟩)
    simp [hnot]
  rw [groupField, observed_flatten_append, hnil, List.nil_append, List.any_append, hany,
    List.any_cons, List.any_nil, hcontains]
  simp [field]

theorem countP_append_group (key : String) :
    ((groups ++ [group]).countP fun group => (Examples.keys group).contains key) =
      if key ∈ Examples.keys group then
        (if key ∈ Examples.keys groups.flatten then
          groups.countP fun group => (Examples.keys group).contains key else 0) + 1
      else groups.countP fun group => (Examples.keys group).contains key := by
  have hzero (h : key ∉ Examples.keys groups.flatten) :
      (groups.countP fun group => (Examples.keys group).contains key) = 0 := by
    refine List.countP_eq_zero.mpr fun other hother hin => ?_
    exact h (Examples.mem_keys_flatten.mpr ⟨other, hother, by simpa using hin⟩)
  rw [List.countP_append, List.countP_singleton]
  by_cases hgroup : key ∈ Examples.keys group
  · by_cases hmem : key ∈ Examples.keys groups.flatten
    · simp [hgroup, hmem]
    · rw [hzero hmem]
      simp [hgroup, hmem]
  · simp [hgroup]

/-- Taking in the summary of one more group. -/
theorem Gathered.absorb {name other : String} {g : Gathering} {r : Record}
    (h : Gathered initialisms name groups g) (hr : r.keyed = record initialisms other group)
    (hshape : ∀ key ∈ Examples.keys group, key ∈ Examples.keys groups.flatten → ∀ a b : Shape,
      a.keyed = shape initialisms (Identifier.ofKey initialisms key)
        (Examples.observed key groups.flatten) →
      b.keyed = shape initialisms (Identifier.ofKey initialisms key)
        (Examples.observed key group) →
      (a.covering m b).keyed = shape initialisms (Identifier.ofKey initialisms key)
        (Examples.observed key groups.flatten ++ Examples.observed key group)) :
    Gathered initialisms name (groups ++ [group]) (g.absorb m r).result := by
  rw [Record.keyed_eq_mk, record_eq] at hr
  obtain ⟨-, hfields⟩ := Record.mk.inj hr
  obtain ⟨hname, hexamples⟩ :=
    Gathering.absorbFields_frame (m := m) { g with examples := g.examples + 1 } r.fields
  have hstart : Gathering.Holds { g with examples := g.examples + 1 } _ _ _ :=
    ⟨h.holds.fields, h.holds.seen, h.holds.sourceKey, h.holds.nodup⟩
  have hholds := hstart.absorbFields (m := m) (groupField initialisms (groups ++ [group]))
    hfields (fun _ _ => rfl) (Examples.nodup_keys group) (fun _ _ => rfl)
    (fun key hgroup hmem f f' hf hf' => by
      refine keyed_merge_groupField g.record.name hf hf' hmem hgroup ?_
      refine hshape key hgroup hmem f.shape f'.shape ?_ ?_
      · rw [← Field.keyed_shape, hf]
        rfl
      · rw [← Field.keyed_shape, hf']
        rfl)
    (fun key hgroup hmem => groupField_of_not_mem_flatten hmem hgroup)
  refine ⟨hname.trans h.name, ?_, ?_⟩
  · rw [Gathering.absorb, hexamples, h.examples, List.length_append, List.length_singleton]
  · rw [Gathering.absorb, List.flatten_append, List.flatten_singleton, Examples.keys_append]
    refine hholds.congr (fun key _ => ?_) fun key _ => ?_
    · by_cases hgroup : key ∈ Examples.keys group
      · rw [if_pos hgroup]
      · rw [if_neg hgroup, groupField_of_not_mem_keys hgroup]
    · exact (countP_append_group key).symm

/-- The record that a gathering ends with is the summary of all examples. -/
theorem Gathered.keyed_finish {name : String} {g : Gathering}
    (h : Gathered initialisms name groups g) (hne : ∀ group ∈ groups, group ≠ []) :
    g.finish.keyed = record initialisms name groups.flatten := by
  rw [h.holds.keyed_finish, record_eq, h.name, h.examples]
  refine congrArg _ (List.map_congr_left fun key _ => ?_)
  simp only [groupField, field, Examples.lacks_flatten key hne]
  congr 1
  ac_rfl

theorem isSlice_of_keyed_joined {a : Shape} {name : String} {arrays : List Value}
    (h : a.keyed = joined initialisms name arrays) : a.isSlice := by
  rw [← Shape.isSlice_keyed, h]
  exact isSlice_joined initialisms name arrays

theorem fits_shape {a : Shape} {name : String} {values : List Value}
    (h : a.keyed = shape initialisms name values) : (form (concrete values)).Fits a := by
  rw [shape_eq] at h
  cases hf : form (concrete values) with
  | nothing => exact Shape.keyed_eq_scalar (by rwa [hf] at h)
  | scalars kind =>
    exact ⟨Shape.keyed_eq_scalar (by rwa [hf] at h), ne_null_of_form_concrete hf⟩
  | objects =>
    obtain ⟨r, hr, -⟩ := Shape.keyed_eq_struct (by rwa [hf] at h)
    exact ⟨r, hr⟩
  | arrays => exact isSlice_of_keyed_joined (by rwa [hf] at h)
  | mixed => exact Shape.keyed_eq_any (by rwa [hf] at h)

theorem keyed_eq_sliceOf {a t : Shape} (h : a.keyed = sliceOf t) :
    ∃ s : Shape, a = sliceOf s ∧ s.keyed = t := by
  by_cases ht : t = .anySlice
  · subst ht
    exact ⟨.anySlice, Shape.keyed_eq_anySlice h, rfl⟩
  · have hslice : sliceOf t = .slice t := by
      cases t <;> first | rfl | contradiction
    rw [hslice] at h
    obtain ⟨s, rfl, hs⟩ := Shape.keyed_eq_slice h
    refine ⟨s, ?_, hs⟩
    cases s <;> first | rfl | exact absurd hs.symm ht

theorem keyed_sliceOf (a : Shape) : (sliceOf a).keyed = sliceOf a.keyed := by
  cases a <;> rfl

theorem fits_slice {a : Shape} {name : String} {elements : List Value}
    (h : a.keyed = slice initialisms name elements) : (form elements).FitsElements a := by
  rw [slice_eq] at h
  cases hf : form elements with
  | nothing | mixed => exact Shape.keyed_eq_anySlice (by rwa [hf] at h)
  | scalars kind =>
    obtain ⟨t, rfl, ht⟩ := Shape.keyed_eq_slice (by rwa [hf] at h)
    exact congrArg Shape.slice (Shape.keyed_eq_scalar ht)
  | objects =>
    obtain ⟨r, hr, -⟩ := Shape.keyed_eq_structSlice (by rwa [hf] at h)
    exact ⟨r, hr⟩
  | arrays =>
    obtain ⟨t, rfl, ht⟩ := keyed_eq_sliceOf (by rwa [hf] at h)
    exact ⟨t, rfl, isSlice_of_keyed_joined ht⟩

/-- The records of two groups of examples merge to the record of all. -/
def RecordsMerge (initialisms : Initialisms) (name : String)
    (xs : List (List (String × Value))) : Prop :=
  xs ≠ [] → ∀ (ys : List (List (String × Value))) (a b : Record), ys ≠ [] →
    a.keyed = record initialisms name xs → b.keyed = record initialisms name ys →
    (Record.merge a b).result.keyed = record initialisms name (xs ++ ys)

/-- The shapes of two lists of values join to the shape of all. -/
def ShapesJoin (initialisms : Initialisms) (name : String) (vs : List Value) : Prop :=
  ∀ (ws : List Value) (a b : Shape),
    a.keyed = shape initialisms name vs → b.keyed = shape initialisms name ws →
    (a.covering Record.merge b).keyed = shape initialisms name (vs ++ ws)

/-- The shapes of two arrays join to the shape of one with the elements of both. -/
def SlicesJoin (initialisms : Initialisms) (name : String) (es : List Value) : Prop :=
  es ≠ [] → ∀ (fs : List Value) (a b : Shape), fs ≠ [] →
    a.keyed = slice initialisms name es → b.keyed = slice initialisms name fs →
    (a.covering Record.merge b).keyed = slice initialisms name (es ++ fs)

theorem recordsMerge_of_shapesJoin {name : String} {xs : List (List (String × Value))}
    (h : ∀ key, ShapesJoin initialisms (Identifier.ofKey initialisms key)
      (Examples.observed key xs)) : RecordsMerge initialisms name xs := by
  intro hx ys a b hy ha hb
  have hname : a.name = name := by rw [← Record.keyed_name, ha, record_eq]
  have h₀ : Gathered initialisms a.name [] (Gathering.start a.name) := gathered_start a.name
  have h₁ := h₀.absorb (m := Record.merge) ha
    (fun key _ hmem => by simp [Examples.keys] at hmem)
  have h₂ := h₁.absorb (m := Record.merge) hb fun key _ _ a b ha hb => by
    rw [List.nil_append, List.flatten_singleton] at ha ⊢
    exact h key _ a b ha hb
  have hfinish := h₂.keyed_finish (by simp [hx, hy])
  rw [Record.merge_eq]
  simpa [hname] using hfinish

theorem flatMap_elements_ne_nil {arrays : List Value} (hne : arrays ≠ [])
    (h : arrays.any (·.elements.isEmpty) = false) : arrays.flatMap Value.elements ≠ [] := by
  obtain ⟨v, arrays, rfl⟩ := List.exists_cons_of_ne_nil hne
  rw [List.any_cons, Bool.or_eq_false_iff] at h
  intro he
  rw [List.flatMap_cons, List.append_eq_nil_iff] at he
  rw [he.1] at h
  exact absurd h.1 (by simp)

/-- The shapes of some arrays and of others join to the shape of them all. -/
theorem keyed_covering_joined {name : String} {vs ws : List Value} {a b : Shape}
    (hv : vs ≠ []) (hw : ws ≠ [])
    (ih : vs.any (·.elements.isEmpty) = false →
      SlicesJoin initialisms name (vs.flatMap Value.elements))
    (ha : a.keyed = joined initialisms name vs) (hb : b.keyed = joined initialisms name ws) :
    (a.covering Record.merge b).keyed = joined initialisms name (vs ++ ws) := by
  have hsliceA : a.isSlice := isSlice_of_keyed_joined ha
  have hsliceB : b.isSlice := isSlice_of_keyed_joined hb
  rw [joined] at ha hb ⊢
  rw [List.any_append, List.flatMap_append]
  cases hve : vs.any (·.elements.isEmpty) with
  | true =>
    rw [hve, if_pos rfl] at ha
    rw [Shape.keyed_eq_anySlice ha, Shape.covering_anySlice_left _ hsliceB]
    rfl
  | false =>
    cases hwe : ws.any (·.elements.isEmpty) with
    | true =>
      rw [hwe, if_pos rfl] at hb
      rw [Shape.keyed_eq_anySlice hb, Shape.covering_anySlice_right _ hsliceA]
      rfl
    | false =>
      rw [hve, if_neg Bool.false_ne_true] at ha
      rw [hwe, if_neg Bool.false_ne_true] at hb
      exact ih hve (flatMap_elements_ne_nil hv hve) _ a b (flatMap_elements_ne_nil hw hwe) ha hb

theorem shape_congr {name : String} {vs ws : List Value} (h : concrete vs = concrete ws) :
    shape initialisms name vs = shape initialisms name ws := by
  rw [shape_eq, shape_eq, h]

theorem shape_of_concrete_nil {name : String} {vs : List Value} (h : concrete vs = []) :
    shape initialisms name vs = .scalar .null := by
  rw [shape_eq, h]
  rfl

theorem shapesJoin_of_parts {name : String} {vs : List Value}
    (hrecords : form (concrete vs) = .objects →
      RecordsMerge initialisms name ((concrete vs).map Value.members))
    (hslices : form (concrete vs) = .arrays → (concrete vs).any (·.elements.isEmpty) = false →
      SlicesJoin initialisms name ((concrete vs).flatMap Value.elements)) :
    ShapesJoin initialisms name vs := by
  intro ws a b ha hb
  by_cases hmixed : (form (concrete vs)).join (form (concrete ws)) = .mixed
  · rw [covering_of_join_eq_mixed (fits_shape ha) (fits_shape hb) hmixed, shape_eq,
      concrete_append, form_append, hmixed]
    rfl
  by_cases hv : concrete vs = []
  · rw [shape_of_concrete_nil hv] at ha
    have hsame : concrete (vs ++ ws) = concrete ws := by
      rw [concrete_append, hv, List.nil_append]
    rw [Shape.keyed_eq_scalar ha, Shape.covering_null_left, hb, shape_congr hsame]
  by_cases hw : concrete ws = []
  · rw [shape_of_concrete_nil hw] at hb
    have hsame : concrete (vs ++ ws) = concrete vs := by
      rw [concrete_append, hw, List.append_nil]
    rw [Shape.keyed_eq_scalar hb, Shape.covering_null_right, ha, shape_congr hsame]
  rw [shape_eq] at ha hb ⊢
  rw [concrete_append, form_append]
  obtain ⟨j, k, kind, hf, hg, hlarger⟩ | ⟨hf, hg⟩ | ⟨hf, hg⟩ := Form.alike_of_join
    (mt form_eq_nothing_iff.mp hv) (mt form_eq_nothing_iff.mp hw) hmixed
  · have hj := ne_null_of_form_concrete hf
    have hk := ne_null_of_form_concrete hg
    rw [hf] at ha
    rw [hg] at hb
    rw [hf, hg, Shape.keyed_eq_scalar ha, Shape.keyed_eq_scalar hb,
      Shape.covering_scalar _ hj hk, Form.join, hlarger]
    rfl
  · rw [hf] at ha
    rw [hg] at hb
    obtain ⟨r, rfl, hr⟩ := Shape.keyed_eq_struct ha
    obtain ⟨r', rfl, hr'⟩ := Shape.keyed_eq_struct hb
    have hmerge := hrecords hf (by simpa using hv) _ r r' (by simpa using hw) hr hr'
    rw [hf, hg, Shape.covering_struct, Shape.keyed, hmerge, List.map_append]
    rfl
  · rw [hf] at ha
    rw [hg] at hb
    rw [hf, hg]
    exact keyed_covering_joined hv hw (hslices hf) ha hb

theorem slicesJoin_of_parts {name : String} {es : List Value}
    (hrecords : form es = .objects → RecordsMerge initialisms name (es.map Value.members))
    (hslices : form es = .arrays → es.any (·.elements.isEmpty) = false →
      SlicesJoin initialisms name (es.flatMap Value.elements)) :
    SlicesJoin initialisms name es := by
  intro hes fs a b hfs ha hb
  by_cases hmixed : (form es).join (form fs) = .mixed
  · rw [covering_elements_of_join_eq_mixed (fits_slice ha) (fits_slice hb) hmixed, slice_eq,
      form_append, hmixed]
    rfl
  rw [slice_eq] at ha hb ⊢
  rw [form_append]
  obtain ⟨j, k, kind, hf, hg, hlarger⟩ | ⟨hf, hg⟩ | ⟨hf, hg⟩ := Form.alike_of_join
    (mt form_eq_nothing_iff.mp hes) (mt form_eq_nothing_iff.mp hfs) hmixed
  · rw [hf] at ha
    rw [hg] at hb
    obtain ⟨s, rfl, hs⟩ := Shape.keyed_eq_slice ha
    obtain ⟨t, rfl, ht⟩ := Shape.keyed_eq_slice hb
    rw [hf, hg, Shape.keyed_eq_scalar hs, Shape.keyed_eq_scalar ht, Shape.covering_slice_scalar,
      Form.join, hlarger]
    rfl
  · rw [hf] at ha
    rw [hg] at hb
    obtain ⟨r, rfl, hr⟩ := Shape.keyed_eq_structSlice ha
    obtain ⟨r', rfl, hr'⟩ := Shape.keyed_eq_structSlice hb
    have hmerge := hrecords hf (by simpa using hes) _ r r' (by simpa using hfs) hr hr'
    rw [hf, hg, Shape.covering_structSlice, Shape.keyed, hmerge, List.map_append]
    rfl
  · rw [hf] at ha
    rw [hg] at hb
    obtain ⟨s, rfl, hs⟩ := keyed_eq_sliceOf ha
    obtain ⟨t, rfl, ht⟩ := keyed_eq_sliceOf hb
    have hsliceS : s.isSlice := isSlice_of_keyed_joined hs
    have hsliceT : t.isSlice := isSlice_of_keyed_joined ht
    have hjoined := keyed_covering_joined hes hfs (hslices hf) hs ht
    rw [hf, hg, Shape.covering_sliceOf _ hsliceS hsliceT, keyed_sliceOf, hjoined]
    rfl

/-- Records, shapes and slices are merged to those of all examples together. -/
theorem merges (initialisms : Initialisms) :
    (∀ name xs, RecordsMerge initialisms name xs) ∧ (∀ name vs, ShapesJoin initialisms name vs) ∧
      ∀ name es, SlicesJoin initialisms name es := by
  apply induct initialisms
  · intro name xs ih
    exact recordsMerge_of_shapesJoin ih
  · intro name vs hrecords hslices
    exact shapesJoin_of_parts hrecords hslices
  · intro name es hrecords hslices
    exact slicesJoin_of_parts hrecords hslices

end Exemplar.Summary
