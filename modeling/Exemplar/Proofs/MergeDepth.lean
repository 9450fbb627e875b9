import Exemplar.Proofs.Freshness
import Exemplar.Shape.Merge

/-!
# Merging needs no depth limit

`Record.merge` runs on a limit that it takes from the depth of its arguments. Every record that is
merged on the way is nested less deeply than the limit left for it, so the limit is never met:
`Record.merge_eq` is the equation that one would write without a limit.
-/

namespace Exemplar

/-- Two ways to merge agree on records of at most a given depth, and stay within that depth. -/
def RecordMerge.AgreeWithin (depth : Nat) (m m' : RecordMerge) : Prop :=
  ∀ a b : Record, a.depth ≤ depth → b.depth ≤ depth →
    m a b = m' a b ∧ (m a b).result.depth ≤ depth

theorem Record.depth_eq (r : Record) : r.depth = Field.maxDepth r.fields + 1 := by
  cases r; rfl

theorem Field.depth_eq (f : Field) : f.depth = f.shape.depth := by
  cases f; rfl

theorem Field.maxDepth_le_iff (fields : List Field) (depth : Nat) :
    Field.maxDepth fields ≤ depth ↔ ∀ f ∈ fields, f.depth ≤ depth := by
  induction fields with
  | nil => simp [Field.maxDepth]
  | cons f fields ih => rw [Field.maxDepth, Nat.max_le, ih, List.forall_mem_cons]

theorem Record.result_addReporting (r : Record) (f : Field) :
    (r.addReporting f).result = (r.add f).1 := by
  rw [Record.addReporting]
  dsimp only
  split <;> rfl

/-- The flag tells whether the field has been given another identifier. -/
theorem Record.changed_iff (r : Record) (f : Field) :
    (r.add f).2 ↔ (r.renamed f).identifier ≠ f.identifier := by
  have hname : (r.renamed f).identifier = f.identifier ↔ f.identifier ∉ r.identifiers :=
    Fresh.name_eq_self_iff
  rw [ne_eq, hname, not_not]
  exact List.contains_iff_mem

theorem Record.addReporting_of_changed {r : Record} {f : Field}
    (h : (r.renamed f).identifier ≠ f.identifier) :
    r.addReporting f = ⟨(r.add f).1,
      [.identifierCollision r.name f.sourceKey (r.renamed f).identifier]⟩ := by
  rw [addReporting]
  dsimp only
  rw [if_pos ((r.changed_iff f).mpr h)]
  rfl

theorem Record.addReporting_of_unchanged {r : Record} {f : Field}
    (h : (r.renamed f).identifier = f.identifier) : r.addReporting f = pure (r.add f).1 := by
  have hsame : ¬(r.add f).2 := fun hchanged => (r.changed_iff f).mp hchanged h
  rw [addReporting]
  dsimp only
  rw [if_neg hsame]

/-- What follows a computation is used at its result only. -/
theorem Reported.bind_congr_result {α β : Type} {x : Reported α} {f g : α → Reported β}
    (h : f x.result = g x.result) : x >>= f = x >>= g := by
  change Reported.mk (f x.result).result (x.events ++ (f x.result).events) = _
  rw [h]
  rfl

variable {depth : Nat} {m m' : RecordMerge}

namespace Shape

/-- The join of elements calls the merge on records inside its arguments only. -/
theorem elementJoin?_agree (h : RecordMerge.AgreeWithin depth m m') {a b : Shape}
    (ha : a.depth ≤ depth) (hb : b.depth ≤ depth) :
    a.elementJoin? m b = a.elementJoin? m' b ∧
      ∀ r, a.elementJoin? m b = some r → r.result.depth ≤ depth := by
  fun_induction elementJoin? m a b with
  | case1 kind =>
    refine ⟨by rw [elementJoin?, if_pos rfl], ?_⟩
    intro r hr
    obtain rfl := Option.some.inj hr
    exact Nat.zero_le _
  | case2 j k hne hnull => exact ⟨by rw [elementJoin?, if_neg hne, if_pos hnull], by simp⟩
  | case3 j k hne hnull =>
    refine ⟨by rw [elementJoin?, if_neg hne, if_neg hnull], ?_⟩
    intro r hr
    obtain ⟨kind, -, rfl⟩ := Option.map_eq_some_iff.mp hr
    exact Nat.zero_le _
  | case4 a b ih =>
    obtain ⟨heq, hle⟩ := ih ha hb
    refine ⟨by rw [elementJoin?, heq], ?_⟩
    intro r hr
    obtain ⟨r', hr', rfl⟩ := Option.map_eq_some_iff.mp hr
    exact hle r' hr'
  | case5 a b =>
    obtain ⟨heq, hle⟩ := h a b ha hb
    refine ⟨by rw [elementJoin?, heq], ?_⟩
    intro r hr
    obtain rfl := Option.some.inj hr
    exact hle
  | case6 a b hscalar hslice hstruct =>
    exact ⟨by rw [elementJoin?]; all_goals assumption, by simp⟩

private theorem depth_result_le {a : Shape} (ha : a.depth ≤ depth) :
    ∀ r : Reported Shape, some (pure a) = some r → r.result.depth ≤ depth := by
  intro r hr
  obtain rfl := Option.some.inj hr
  exact ha

theorem join?_agree (h : RecordMerge.AgreeWithin depth m m') {a b : Shape}
    (ha : a.depth ≤ depth) (hb : b.depth ≤ depth) :
    a.join? m b = a.join? m' b ∧
      ∀ r, a.join? m b = some r → r.result.depth ≤ depth := by
  fun_cases join? m a b
  case case3 j k =>
    refine ⟨by rw [join?], ?_⟩
    intro r hr
    obtain ⟨kind, -, rfl⟩ := Option.map_eq_some_iff.mp hr
    exact Nat.zero_le _
  case case6 a b | case7 a b =>
    obtain ⟨heq, hle⟩ := h a b ha hb
    refine ⟨by rw [join?, heq], ?_⟩
    intro r hr
    obtain rfl := Option.some.inj hr
    exact hle
  case case8 a b =>
    obtain ⟨heq, hle⟩ := elementJoin?_agree h (a := a) (b := b) ha hb
    refine ⟨by rw [join?, heq], ?_⟩
    intro r hr
    obtain ⟨r', hr', rfl⟩ := Option.map_eq_some_iff.mp hr
    exact hle r' hr'
  case case4 => exact ⟨by simp_all [join?], depth_result_le hb⟩
  case case5 => exact ⟨by simp_all [join?], depth_result_le ha⟩
  case case10 | case12 | case13 => exact ⟨by simp_all [join?], by simp⟩
  all_goals exact ⟨by simp_all [join?], depth_result_le (Nat.zero_le _)⟩

end Shape

/-- Merging two fields merges records inside their shapes only. -/
theorem Field.merge_agree (h : RecordMerge.AgreeWithin depth m m') (record : String)
    {f g : Field} (hf : f.depth ≤ depth) (hg : g.depth ≤ depth) :
    f.merge m record g = f.merge m' record g ∧ (f.merge m record g).result.depth ≤ depth := by
  rw [Field.depth_eq] at hf hg
  obtain ⟨heq, hle⟩ := Shape.join?_agree h hf hg
  refine ⟨by rw [Field.merge, heq, Field.merge], ?_⟩
  rw [Field.depth_eq, Field.merge]
  cases hj : f.shape.join? m g.shape with
  | some joined => exact hle joined hj
  | none =>
    dsimp only
    split <;> exact Nat.zero_le _

namespace Gathering

theorem mergeInto?_agree (h : RecordMerge.AgreeWithin depth m m') (record : String)
    {incoming : Field} {fields : List Field} (hi : incoming.depth ≤ depth)
    (hf : ∀ f ∈ fields, f.depth ≤ depth) :
    mergeInto? m record incoming fields = mergeInto? m' record incoming fields ∧
      ∀ r, mergeInto? m record incoming fields = some r → ∀ f ∈ r.result, f.depth ≤ depth := by
  induction fields with
  | nil => exact ⟨rfl, by simp [mergeInto?]⟩
  | cons f fields ih =>
    obtain ⟨hfirst, hrest⟩ := List.forall_mem_cons.mp hf
    by_cases hk : f.sourceKey = incoming.sourceKey
    · obtain ⟨heq, hle⟩ := Field.merge_agree h record hfirst hi
      rw [mergeInto?, mergeInto?, if_pos hk, if_pos hk, heq]
      refine ⟨rfl, ?_⟩
      intro r hr
      obtain rfl := Option.some.inj hr
      rw [← heq]
      exact List.forall_mem_cons.mpr ⟨hle, hrest⟩
    · obtain ⟨heq, hle⟩ := ih hrest
      rw [mergeInto?, mergeInto?, if_neg hk, if_neg hk, heq]
      refine ⟨rfl, ?_⟩
      intro r hr
      obtain ⟨r', hr', rfl⟩ := Option.map_eq_some_iff.mp hr
      exact List.forall_mem_cons.mpr ⟨hfirst, hle r' (heq.trans hr')⟩

theorem absorbField_agree (h : RecordMerge.AgreeWithin depth m m') {g : Gathering}
    {incoming : Field} (hg : ∀ f ∈ g.record.fields, f.depth ≤ depth)
    (hi : incoming.depth ≤ depth) :
    g.absorbField m incoming = g.absorbField m' incoming ∧
      ∀ f ∈ (g.absorbField m incoming).result.record.fields, f.depth ≤ depth := by
  obtain ⟨heq, hle⟩ := mergeInto?_agree h g.record.name hi hg
  refine ⟨by rw [absorbField, heq, absorbField], ?_⟩
  rw [absorbField]
  cases hm : mergeInto? m g.record.name incoming g.record.fields with
  | some merged => exact hle merged hm
  | none =>
    intro f hf
    rw [Reported.result_bind, Record.result_addReporting] at hf
    rcases List.mem_append.mp hf with hold | hnew
    · exact hg f hold
    · obtain rfl := List.mem_singleton.mp hnew
      rw [Field.depth_eq] at hi ⊢
      exact hi

theorem absorbFields_agree (h : RecordMerge.AgreeWithin depth m m') {g : Gathering}
    {fields : List Field} (hg : ∀ f ∈ g.record.fields, f.depth ≤ depth)
    (hf : ∀ f ∈ fields, f.depth ≤ depth) :
    g.absorbFields m fields = g.absorbFields m' fields ∧
      ∀ f ∈ (g.absorbFields m fields).result.record.fields, f.depth ≤ depth := by
  induction fields generalizing g with
  | nil => exact ⟨rfl, hg⟩
  | cons f fields ih =>
    obtain ⟨hfirst, hrest⟩ := List.forall_mem_cons.mp hf
    obtain ⟨heq, hle⟩ := absorbField_agree h hg hfirst
    obtain ⟨heq', hle'⟩ := ih hle hrest
    rw [absorbFields, absorbFields, ← heq]
    refine ⟨?_, hle'⟩
    exact Reported.bind_congr_result heq'

theorem absorb_agree (h : RecordMerge.AgreeWithin depth m m') {g : Gathering} {sample : Record}
    (hg : ∀ f ∈ g.record.fields, f.depth ≤ depth) (hs : sample.depth ≤ depth + 1) :
    g.absorb m sample = g.absorb m' sample ∧
      ∀ f ∈ (g.absorb m sample).result.record.fields, f.depth ≤ depth := by
  rw [Record.depth_eq] at hs
  have hf := (Field.maxDepth_le_iff sample.fields depth).mp (Nat.le_of_succ_le_succ hs)
  exact absorbFields_agree h (g := { g with examples := g.examples + 1 }) hg hf

/-- Counting examples changes only whether fields are optional. -/
theorem map_withPresence {β : Type} (p : Field → β)
    (hp : ∀ (f : Field) (optional : Bool), p { f with optional } = p f) (examples : Nat)
    (fields : List Field) (seen : List Nat) :
    (withPresence examples fields seen).map p = fields.map p := by
  induction fields generalizing seen with
  | nil => cases seen <;> rfl
  | cons f fields ih =>
    cases seen with
    | nil => rfl
    | cons n seen => rw [withPresence, List.map_cons, List.map_cons, hp, ih]

theorem forall_mem_withPresence {P : Field → Prop}
    (hP : ∀ (f : Field) (optional : Bool), P { f with optional } ↔ P f) (examples : Nat)
    (fields : List Field) (seen : List Nat) :
    (∀ f ∈ withPresence examples fields seen, P f) ↔ ∀ f ∈ fields, P f := by
  induction fields generalizing seen with
  | nil => cases seen <;> rfl
  | cons f fields ih =>
    cases seen with
    | nil => rfl
    | cons n seen => rw [withPresence, List.forall_mem_cons, List.forall_mem_cons, hP, ih]

theorem depth_finish_le {g : Gathering} (hg : ∀ f ∈ g.record.fields, f.depth ≤ depth) :
    g.finish.depth ≤ depth + 1 := by
  have hsame : ∀ (f : Field) (optional : Bool),
      { f with optional }.depth ≤ depth ↔ f.depth ≤ depth := fun f optional => by
    rw [Field.depth_eq, Field.depth_eq]
  rw [Record.depth_eq]
  refine Nat.succ_le_succ ((Field.maxDepth_le_iff _ _).mpr ?_)
  exact (forall_mem_withPresence hsame ..).mpr hg

end Gathering

namespace Record

/-- Gathers the first record and then the second, where inner records are merged by `m`. -/
def mergeWith (m : RecordMerge) : RecordMerge := fun a b => do
  let g ← (Gathering.start a.name).absorb m a
  let g ← g.absorb m b
  return g.finish

/-- Inner records are nested one level less deeply. -/
theorem mergeWith_agree (h : RecordMerge.AgreeWithin depth m m') :
    RecordMerge.AgreeWithin (depth + 1) (mergeWith m) (mergeWith m') := by
  intro a b ha hb
  obtain ⟨ha₁, ha₂⟩ := Gathering.absorb_agree h (g := Gathering.start a.name)
    (by simp [Gathering.start, Record.empty]) ha
  obtain ⟨hb₁, hb₂⟩ := Gathering.absorb_agree h ha₂ hb
  rw [mergeWith, mergeWith, ← ha₁]
  refine ⟨?_, Gathering.depth_finish_le hb₂⟩
  refine Reported.bind_congr_result ?_
  rw [hb₁]

theorem agreeWithin_zero (m m' : RecordMerge) : RecordMerge.AgreeWithin 0 m m' := by
  intro a b ha _
  rw [Record.depth_eq] at ha
  omega

/-- A limit that both records meet is as good as any larger one, and the result meets it too. -/
theorem mergeWithin_agree (depth extra : Nat) :
    RecordMerge.AgreeWithin depth (mergeWithin depth) (mergeWithin (depth + extra)) := by
  induction depth with
  | zero => exact agreeWithin_zero _ _
  | succ depth ih =>
    have hextra : depth + 1 + extra = depth + extra + 1 := by omega
    rw [hextra]
    exact mergeWith_agree ih

theorem mergeWithin_eq_merge {depth : Nat} {a b : Record} (ha : a.depth ≤ depth)
    (hb : b.depth ≤ depth) : mergeWithin depth a b = merge a b := by
  obtain ⟨extra, rfl⟩ := Nat.exists_eq_add_of_le (Nat.max_le.mpr ⟨ha, hb⟩)
  rw [merge]
  exact (mergeWithin_agree (max a.depth b.depth) extra a b (Nat.le_max_left _ _)
    (Nat.le_max_right _ _)).1.symm

/-- Merging two records gathers the first and then the second, merging inner records likewise. -/
theorem merge_eq (a b : Record) :
    merge a b = do
      let g ← (Gathering.start a.name).absorb merge a
      let g ← g.absorb merge b
      return g.finish := by
  obtain ⟨depth, hdepth⟩ : ∃ depth, max a.depth b.depth = depth + 1 := by
    refine ⟨max a.depth b.depth - 1, ?_⟩
    have ha := Record.depth_eq a
    omega
  have hagree : RecordMerge.AgreeWithin depth (mergeWithin depth) merge := fun x y hx hy =>
    ⟨mergeWithin_eq_merge hx hy, (mergeWithin_agree depth 0 x y hx hy).2⟩
  have ha : a.depth ≤ depth + 1 := by omega
  have hb : b.depth ≤ depth + 1 := by omega
  rw [merge, hdepth]
  exact (mergeWith_agree hagree a b ha hb).1

/-- What carries over from the merges of inner records to the merge that uses them holds of
merging, if it holds of any way to merge at all: records that are nested deeply enough never get
that far down. -/
theorem merge_induction {P : Record → Record → Reported Record → Prop} (seed : RecordMerge)
    (hseed : ∀ a b, P a b (seed a b))
    (hstep : ∀ m : RecordMerge, (∀ a b, P a b (m a b)) → ∀ a b, P a b (mergeWith m a b))
    (a b : Record) : P a b (merge a b) := by
  have hreach : ∀ depth, ∃ m : RecordMerge, (∀ a b, P a b (m a b)) ∧
      RecordMerge.AgreeWithin depth m (mergeWithin depth) := by
    intro depth
    induction depth with
    | zero => exact ⟨seed, hseed, agreeWithin_zero _ _⟩
    | succ depth ih =>
      obtain ⟨m, hm, hagree⟩ := ih
      exact ⟨mergeWith m, hstep m hm, mergeWith_agree hagree⟩
  obtain ⟨m, hm, hagree⟩ := hreach (max a.depth b.depth)
  have hmerge : m a b = merge a b :=
    (hagree a b (Nat.le_max_left _ _) (Nat.le_max_right _ _)).1
  exact hmerge ▸ hm a b

end Record

end Exemplar
