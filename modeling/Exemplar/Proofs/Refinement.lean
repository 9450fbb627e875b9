import Exemplar.Proofs.DistinctFields

/-!
# Further examples only add to a record

A record that takes in more examples keeps its fields, in the same order and under the same keys and
identifiers. Their shapes grow to cover more, and optional fields stay optional. `Record.growsTo` is
this order; it is shown for joins and merges first, then for a gathering that goes on.
-/

namespace Exemplar

mutual

/-- Whether a shape may grow into another one: null into everything, kinds into larger ones, slices
into slices of anything, everything into anything. -/
def Shape.growsTo : Shape → Shape → Bool
  | _, .any => true
  | .scalar j, .scalar k => j = .null || j.promotesTo k
  | .scalar j, _ => j = .null
  | .struct r, .struct s => r.growsTo s
  | .structSlice r, .structSlice s => r.growsTo s
  | .slice a, .slice b => a.elementGrowsTo b
  | a, .anySlice => a.isSlice
  | _, _ => false
termination_by structural x => x

/-- The same for the shapes of elements. Null is a kind like any other there, and elements do not
change their form. -/
def Shape.elementGrowsTo : Shape → Shape → Bool
  | .scalar j, .scalar k => j.promotesTo k
  | .struct r, .struct s => r.growsTo s
  | .structSlice r, .structSlice s => r.growsTo s
  | .slice a, .slice b => a.elementGrowsTo b
  | .anySlice, .anySlice => true
  | .any, .any => true
  | _, _ => false
termination_by structural x => x

/-- Whether a record may grow into another one. -/
def Record.growsTo : Record → Record → Bool
  | ⟨name, fields⟩, ⟨name', fields'⟩ => name = name' && Field.allGrowTo fields fields'
termination_by structural x => x

/-- Whether fields may grow into the first ones of others. -/
def Field.allGrowTo : List Field → List Field → Bool
  | [], _ => true
  | f :: fields, g :: fields' => f.growsTo g && Field.allGrowTo fields fields'
  | _ :: _, [] => false
termination_by structural x => x

/-- Whether a field may grow into another one. -/
def Field.growsTo : Field → Field → Bool
  | ⟨key, identifier, shape, optional, _⟩, ⟨key', identifier', shape', optional', _⟩ =>
    key = key' && identifier = identifier' && shape.growsTo shape' && (!optional || optional')
termination_by structural x => x

end

theorem Record.growsTo_iff {r s : Record} :
    r.growsTo s ↔ r.name = s.name ∧ Field.allGrowTo r.fields s.fields := by
  cases r
  cases s
  rw [Record.growsTo, Bool.and_eq_true, decide_eq_true_iff]

theorem Field.growsTo_iff {f g : Field} :
    f.growsTo g ↔ f.sourceKey = g.sourceKey ∧ f.identifier = g.identifier ∧
      f.shape.growsTo g.shape ∧ (f.optional → g.optional) := by
  cases f
  cases g
  simp [Field.growsTo, and_assoc, Bool.or_eq_true, imp_iff_not_or]

theorem Field.allGrowTo_cons {f g : Field} {fields fields' : List Field} :
    Field.allGrowTo (f :: fields) (g :: fields') ↔
      f.growsTo g ∧ Field.allGrowTo fields fields' := by
  rw [Field.allGrowTo, Bool.and_eq_true]

theorem Shape.growsTo_any (a : Shape) : a.growsTo .any := by
  cases a <;> rfl

theorem Shape.null_growsTo (a : Shape) : (Shape.scalar .null).growsTo a := by
  cases a <;> rfl

theorem Shape.growsTo_anySlice {a : Shape} (h : a.isSlice) : a.growsTo .anySlice := by
  cases a <;> first | rfl | contradiction

theorem Shape.any_growsTo {b : Shape} (h : Shape.any.growsTo b) : b = .any := by
  cases b <;> first | rfl | contradiction

theorem ScalarKind.eq_null_of_promotesTo {j : ScalarKind} (h : j.promotesTo .null) : j = .null := by
  cases j <;> first | rfl | contradiction

theorem Shape.scalar_growsTo_iff {j : ScalarKind} {b : Shape} :
    (Shape.scalar j).growsTo b ↔
      j = .null ∨ b = .any ∨ ∃ k, b = .scalar k ∧ j.promotesTo k := by
  cases b <;> simp [Shape.growsTo]

/-- What an element may grow into, a value may grow into too. -/
theorem Shape.growsTo_of_elementGrowsTo {a b : Shape} (h : a.elementGrowsTo b) : a.growsTo b := by
  cases a with
  | scalar j =>
    cases b with
    | scalar k => exact Shape.scalar_growsTo_iff.mpr (Or.inr (Or.inr ⟨k, rfl, h⟩))
    | _ => contradiction
  | _ => cases b <;> first | exact h | rfl

/-! The order -/

mutual

theorem Shape.growsTo_refl : ∀ a : Shape, a.growsTo a
  | .scalar kind => by simp [Shape.growsTo, ScalarKind.promotesTo_refl]
  | .struct r => Record.growsTo_refl r
  | .structSlice r => Record.growsTo_refl r
  | .slice element => Shape.elementGrowsTo_refl element
  | .anySlice => rfl
  | .any => rfl

theorem Shape.elementGrowsTo_refl : ∀ a : Shape, a.elementGrowsTo a
  | .scalar kind => ScalarKind.promotesTo_refl kind
  | .struct r => Record.growsTo_refl r
  | .structSlice r => Record.growsTo_refl r
  | .slice element => Shape.elementGrowsTo_refl element
  | .anySlice => rfl
  | .any => rfl

theorem Record.growsTo_refl : ∀ r : Record, r.growsTo r
  | ⟨_, fields⟩ => Record.growsTo_iff.mpr ⟨rfl, Field.allGrowTo_refl fields⟩

theorem Field.allGrowTo_refl : ∀ fields : List Field, Field.allGrowTo fields fields
  | [] => rfl
  | f :: fields => Field.allGrowTo_cons.mpr ⟨Field.growsTo_refl f, Field.allGrowTo_refl fields⟩

theorem Field.growsTo_refl : ∀ f : Field, f.growsTo f
  | ⟨_, _, shape, _, _⟩ => Field.growsTo_iff.mpr ⟨rfl, rfl, Shape.growsTo_refl shape, id⟩

end

mutual

theorem Shape.growsTo_trans : ∀ {a b c : Shape}, a.growsTo b → b.growsTo c → a.growsTo c
  | .scalar j, b, c, hab, hbc => by
    rcases Shape.scalar_growsTo_iff.mp hab with rfl | rfl | ⟨k, rfl, hjk⟩
    · exact Shape.null_growsTo c
    · rw [Shape.any_growsTo hbc]
      exact Shape.growsTo_any _
    · rcases Shape.scalar_growsTo_iff.mp hbc with rfl | rfl | ⟨l, rfl, hkl⟩
      · rw [ScalarKind.eq_null_of_promotesTo hjk]
        exact Shape.null_growsTo c
      · exact Shape.growsTo_any _
      · have hjl := ScalarKind.promotesTo_trans hjk hkl
        exact Shape.scalar_growsTo_iff.mpr (Or.inr (Or.inr ⟨l, rfl, hjl⟩))
  | a, .any, c, _, hbc => by
    rw [Shape.any_growsTo hbc]
    exact Shape.growsTo_any a
  | a, _, .any, _, _ => Shape.growsTo_any a
  | .struct r, .struct s, .struct t, hab, hbc => Record.growsTo_trans (r := r) hab hbc
  | .structSlice r, .structSlice s, .structSlice t, hab, hbc =>
    Record.growsTo_trans (r := r) hab hbc
  | .slice a, .slice b, .slice c, hab, hbc => Shape.elementGrowsTo_trans (a := a) hab hbc
  | .structSlice _, _, .anySlice, _, _ => rfl
  | .slice _, _, .anySlice, _, _ => rfl
  | .anySlice, _, .anySlice, _, _ => rfl

theorem Shape.elementGrowsTo_trans : ∀ {a b c : Shape},
    a.elementGrowsTo b → b.elementGrowsTo c → a.elementGrowsTo c
  | .scalar j, .scalar k, .scalar l, hab, hbc => ScalarKind.promotesTo_trans hab hbc
  | .struct r, .struct s, .struct t, hab, hbc => Record.growsTo_trans (r := r) hab hbc
  | .structSlice r, .structSlice s, .structSlice t, hab, hbc =>
    Record.growsTo_trans (r := r) hab hbc
  | .slice a, .slice b, .slice c, hab, hbc => Shape.elementGrowsTo_trans (a := a) hab hbc
  | .anySlice, .anySlice, .anySlice, _, _ => rfl
  | .any, .any, .any, _, _ => rfl

theorem Record.growsTo_trans : ∀ {r s t : Record}, r.growsTo s → s.growsTo t → r.growsTo t
  | ⟨_, fields⟩, s, t, hrs, hst => by
    obtain ⟨hname, hfields⟩ := Record.growsTo_iff.mp hrs
    obtain ⟨hname', hfields'⟩ := Record.growsTo_iff.mp hst
    exact Record.growsTo_iff.mpr ⟨hname.trans hname', Field.allGrowTo_trans hfields hfields'⟩

theorem Field.allGrowTo_trans : ∀ {fields fields' fields'' : List Field},
    Field.allGrowTo fields fields' → Field.allGrowTo fields' fields'' →
      Field.allGrowTo fields fields''
  | [], _, _, _, _ => rfl
  | f :: fields, g :: fields', h :: fields'', hfg, hgh => by
    obtain ⟨hfirst, hrest⟩ := Field.allGrowTo_cons.mp hfg
    obtain ⟨hfirst', hrest'⟩ := Field.allGrowTo_cons.mp hgh
    exact Field.allGrowTo_cons.mpr
      ⟨Field.growsTo_trans hfirst hfirst', Field.allGrowTo_trans hrest hrest'⟩

theorem Field.growsTo_trans : ∀ {f g h : Field}, f.growsTo g → g.growsTo h → f.growsTo h
  | ⟨_, _, shape, _, _⟩, g, h, hfg, hgh => by
    obtain ⟨hkey, hidentifier, hshape, hoptional⟩ := Field.growsTo_iff.mp hfg
    obtain ⟨hkey', hidentifier', hshape', hoptional'⟩ := Field.growsTo_iff.mp hgh
    exact Field.growsTo_iff.mpr ⟨hkey.trans hkey', hidentifier.trans hidentifier',
      Shape.growsTo_trans hshape hshape', fun ho => hoptional' (hoptional ho)⟩

end

/-! Merging -/

/-- No record of the list has two fields of one key or of one identifier. -/
def FieldsDistinct (records : List Record) : Prop :=
  ∀ r ∈ records, r.sourceKeys.Nodup ∧ r.identifiers.Nodup

theorem Record.stable_distinct : Stable fun r => r.sourceKeys.Nodup ∧ r.identifiers.Nodup :=
  stable_keys.and stable_identifiers

/-- The first of two records with distinct fields may grow into their merge, whose fields are
distinct again. -/
structure Record.MergesUp (a b : Record) (merged : Reported Record) : Prop where
  distinct : FieldsDistinct a.records → FieldsDistinct b.records →
    FieldsDistinct merged.result.records
  grows : FieldsDistinct a.records → FieldsDistinct b.records → a.growsTo merged.result

variable {m : RecordMerge}

theorem ScalarKind.promotesTo_of_join? {j k kind : ScalarKind} (h : j.join? k = some kind) :
    j = .null ∨ j.promotesTo kind := by
  cases j <;> cases k <;> simp_all [ScalarKind.join?, ScalarKind.promotesTo]

namespace Shape

theorem elementGrowsTo_elementJoin? (hm : ∀ a b, Record.MergesUp a b (m a b)) {a b : Shape}
    (ha : FieldsDistinct a.records) (hb : FieldsDistinct b.records) {joined : Reported Shape}
    (h : a.elementJoin? m b = some joined) : a.elementGrowsTo joined.result := by
  fun_induction elementJoin? m a b generalizing joined with
  | case1 kind =>
    obtain rfl := Option.some.inj h
    exact elementGrowsTo_refl _
  | case2 => contradiction
  | case3 j k hne hnull =>
    obtain ⟨kind, hkind, rfl⟩ := Option.map_eq_some_iff.mp h
    exact (ScalarKind.promotesTo_of_join? hkind).resolve_left fun hj => hnull (Or.inl hj)
  | case4 a b ih =>
    obtain ⟨element, helement, rfl⟩ := Option.map_eq_some_iff.mp h
    have hinner := ih ha hb helement
    exact hinner
  | case5 a b =>
    obtain rfl := Option.some.inj h
    exact (hm a b).grows ha hb
  | case6 => contradiction

/-- A shape may grow into the shape that covers it and another one. -/
theorem growsTo_covering (hm : ∀ a b, Record.MergesUp a b (m a b)) {a b : Shape}
    (ha : FieldsDistinct a.records) (hb : FieldsDistinct b.records) :
    a.growsTo (a.covering m b) := by
  rw [covering]
  cases hjoin : a.join? m b with
  | none =>
    dsimp only
    split
    · rename_i hslices
      exact growsTo_anySlice (Bool.and_eq_true_iff.mp hslices).1
    · exact growsTo_any a
  | some joined =>
    cases joinStep_of_join? hjoin with
    | left => exact growsTo_refl a
    | right h =>
      rcases h with rfl | rfl | rfl
      · exact growsTo_any a
      · cases a with
        | scalar kind => cases kind <;> first | rfl | contradiction
        | struct r => contradiction
        | any => cases congrArg Reported.result (Option.some.inj hjoin)
        | _ => rfl
      · exact null_growsTo b
    | kinds hkind =>
      refine scalar_growsTo_iff.mpr ?_
      exact (ScalarKind.promotesTo_of_join? hkind).imp_right fun hle => Or.inr ⟨_, rfl, hle⟩
    | structs a b => exact (hm a b).grows ha hb
    | structSlices a b => exact (hm a b).grows ha hb
    | @slices a b element helement =>
      have hinner : a.elementGrowsTo element.result :=
        elementGrowsTo_elementJoin? (a := a) (b := b) hm ha hb helement
      exact hinner

end Shape

theorem Field.growsTo_merge (hm : ∀ a b, Record.MergesUp a b (m a b)) (record : String)
    {f g : Field} (hf : FieldsDistinct f.shape.records) (hg : FieldsDistinct g.shape.records) :
    f.growsTo (f.merge m record g).result := by
  rw [Field.result_merge, Field.growsTo_iff]
  refine ⟨rfl, rfl, Shape.growsTo_covering hm hf hg, fun ho => ?_⟩
  dsimp only
  rw [ho, Bool.true_or, Bool.true_or]

theorem Field.allGrowTo_append (fields more : List Field) :
    Field.allGrowTo fields (fields ++ more) := by
  induction fields with
  | nil => rfl
  | cons f fields ih => exact Field.allGrowTo_cons.mpr ⟨Field.growsTo_refl f, ih⟩

namespace Gathering

theorem allGrowTo_mergeInto? (hm : ∀ a b, Record.MergesUp a b (m a b)) {record : String}
    {incoming : Field} {fields : List Field} (hf : ∀ f ∈ fields, FieldsDistinct f.shape.records)
    (hi : FieldsDistinct incoming.shape.records) {merged : Reported (List Field)}
    (h : mergeInto? m record incoming fields = some merged) :
    Field.allGrowTo fields merged.result := by
  induction fields generalizing merged with
  | nil => contradiction
  | cons f fields ih =>
    obtain ⟨hfirst, hrest⟩ := List.forall_mem_cons.mp hf
    rw [mergeInto?] at h
    by_cases hkey : f.sourceKey = incoming.sourceKey
    · rw [if_pos hkey] at h
      obtain rfl := Option.some.inj h
      exact Field.allGrowTo_cons.mpr
        ⟨Field.growsTo_merge hm record hfirst hi, Field.allGrowTo_refl fields⟩
    · rw [if_neg hkey] at h
      obtain ⟨rest, hmerged, rfl⟩ := Option.map_eq_some_iff.mp h
      exact Field.allGrowTo_cons.mpr ⟨Field.growsTo_refl f, ih hrest hmerged⟩

variable {g : Gathering}

/-- One field of an example. -/
theorem growsTo_absorbField (hm : ∀ a b, Record.MergesUp a b (m a b))
    (hg : FieldsDistinct g.record.records) {f : Field} (hf : FieldsDistinct f.shape.records) :
    g.record.growsTo (g.absorbField m f).result.record := by
  have hinner := (Record.forall_mem_records.mp hg).2
  rw [Record.growsTo_iff, (absorbField_frame g f).1, absorbField]
  refine ⟨rfl, ?_⟩
  cases hmerge : mergeInto? m g.record.name f g.record.fields with
  | some merged => exact allGrowTo_mergeInto? hm hinner hf hmerge
  | none =>
    rw [Reported.result_bind, Record.result_addReporting]
    exact Field.allGrowTo_append ..

/-- All fields of an example. -/
theorem growsTo_absorbFields (hm : ∀ a b, Record.MergesUp a b (m a b))
    (hg : FieldsDistinct g.record.records) {fields : List Field}
    (hfields : ∀ f ∈ fields, FieldsDistinct f.shape.records) :
    g.record.growsTo (g.absorbFields m fields).result.record := by
  induction fields generalizing g with
  | nil => exact Record.growsTo_refl g.record
  | cons f fields ih =>
    obtain ⟨hfirst, hrest⟩ := List.forall_mem_cons.mp hfields
    have hstep := forall_records_absorbField Record.stable_distinct
      (fun a b => (hm a b).distinct) hg hfirst
    exact Record.growsTo_trans (growsTo_absorbField hm hg hfirst) (ih hstep hrest)

/-- Presence makes fields optional, never the other way round. -/
theorem allGrowTo_withPresence_self (examples : Nat) (fields : List Field) (seen : List Nat) :
    Field.allGrowTo fields (withPresence examples fields seen) := by
  induction fields generalizing seen with
  | nil => rfl
  | cons f fields ih =>
    cases seen with
    | nil => exact Field.allGrowTo_refl _
    | cons n seen =>
      refine Field.allGrowTo_cons.mpr ⟨Field.growsTo_iff.mpr ?_, ih seen⟩
      exact ⟨rfl, rfl, Shape.growsTo_refl f.shape, fun ho => by rw [ho, Bool.true_or]⟩

theorem growsTo_finish (g : Gathering) : g.record.growsTo g.finish :=
  Record.growsTo_iff.mpr ⟨rfl, allGrowTo_withPresence_self ..⟩

end Gathering

theorem Record.addReporting_of_free {r : Record} {f : Field}
    (h : f.identifier ∉ r.identifiers) :
    r.addReporting f = pure { r with fields := r.fields ++ [f] } := by
  have hname : Fresh.name r.identifiers f.identifier = f.identifier := Fresh.name_of_not_mem h
  have hsame : r.renamed f = f := by
    rw [renamed, hname]
    cases f
    rfl
  rw [addReporting_of_unchanged hname, add, hsame]

namespace Gathering

/-- Fields with new keys and free identifiers are taken in as they are. -/
theorem absorbFields_of_new {name : String} {first fields : List Field} {seen : List Nat}
    {examples : Nat} (hkeys : ((first ++ fields).map Field.sourceKey).Nodup)
    (hidentifiers : ((first ++ fields).map Field.identifier).Nodup) :
    absorbFields m ⟨⟨name, first⟩, seen, examples⟩ fields =
      pure ⟨⟨name, first ++ fields⟩, seen ++ fields.map fun _ => 1, examples⟩ := by
  induction fields generalizing first seen with
  | nil => simp [absorbFields]
  | cons f fields ih =>
    have hkey : f.sourceKey ∉ first.map Field.sourceKey := by
      rw [List.map_append, List.nodup_append] at hkeys
      exact fun hin => hkeys.2.2 _ hin _ List.mem_cons_self rfl
    have hfree : f.identifier ∉ (Record.mk name first).identifiers := by
      rw [List.map_append, List.nodup_append] at hidentifiers
      exact fun hin => hidentifiers.2.2 _ hin _ List.mem_cons_self rfl
    have hstep : absorbField m ⟨⟨name, first⟩, seen, examples⟩ f =
        pure ⟨⟨name, first ++ [f]⟩, seen ++ [1], examples⟩ := by
      rw [absorbField, mergeInto?_eq_none name hkey]
      dsimp only
      rw [Record.addReporting_of_free hfree]
      rfl
    have happend : first ++ f :: fields = first ++ [f] ++ fields := by simp
    rw [happend] at hkeys hidentifiers ⊢
    rw [absorbFields, hstep, pure_bind, ih hkeys hidentifiers]
    simp

/-- The first example is taken in as it is. -/
theorem absorb_start {r : Record} (hkeys : r.sourceKeys.Nodup)
    (hidentifiers : r.identifiers.Nodup) :
    (start r.name).absorb m r = pure ⟨r, r.fields.map fun _ => 1, 1⟩ := by
  cases r with
  | mk name fields =>
    have hnew : ((([] : List Field) ++ fields).map Field.sourceKey).Nodup := hkeys
    exact absorbFields_of_new hnew hidentifiers

end Gathering

namespace Record

theorem mergeWith_eq_of_distinct {a : Record} (hkeys : a.sourceKeys.Nodup)
    (hidentifiers : a.identifiers.Nodup) (b : Record) :
    mergeWith m a b =
      Gathering.finish <$> Gathering.absorb m ⟨a, a.fields.map fun _ => 1, 1⟩ b := by
  rw [mergeWith, Gathering.absorb_start hkeys hidentifiers, pure_bind]
  rfl

theorem mergesUp_mergeWith (hm : ∀ a b, MergesUp a b (m a b)) (a b : Record) :
    MergesUp a b (mergeWith m a b) where
  distinct := stable_distinct.mergeWith (fun a b => (hm a b).distinct) a b
  grows := by
    intro ha hb
    obtain ⟨⟨hkeys, hidentifiers⟩, -⟩ := forall_mem_records.mp ha
    rw [mergeWith_eq_of_distinct hkeys hidentifiers, Reported.result_map]
    have hgrown := Gathering.growsTo_absorbFields (g := ⟨a, a.fields.map fun _ => 1, 2⟩) hm ha
      (forall_mem_records.mp hb).2
    exact growsTo_trans hgrown (Gathering.growsTo_finish _)

/-- A record may grow into any merge with another one. -/
theorem mergesUp_merge (a b : Record) : MergesUp a b (merge a b) := by
  refine merge_induction (fun a _ => pure a) ?_ (fun m hm => mergesUp_mergeWith hm) a b
  intro a b
  exact ⟨fun ha _ => ha, fun _ _ => growsTo_refl a⟩

end Record

/-! Further examples -/

namespace Gathering

theorem getElem?_countKey (key : String) {fields : List Field} {counts : List Nat} {i n : Nat}
    {f : Field} (hf : fields[i]? = some f) (hn : counts[i]? = some n) :
    ∃ n', (countKey key fields counts)[i]? = some n' ∧ n' ≤ n + [key].count f.sourceKey := by
  induction fields generalizing counts i with
  | nil => simp at hf
  | cons first fields ih =>
    cases counts with
    | nil => simp at hn
    | cons count counts =>
      rw [countKey]
      cases i with
      | zero =>
        obtain rfl : first = f := by simpa using hf
        obtain rfl : count = n := by simpa using hn
        split
        · rename_i hkey
          exact ⟨count + 1, rfl, by simp [hkey]⟩
        · exact ⟨count, rfl, Nat.le_add_right _ _⟩
      | succ i =>
        rw [List.getElem?_cons_succ] at hf hn
        split
        · exact ⟨n, by rwa [List.getElem?_cons_succ], Nat.le_add_right _ _⟩
        · rw [List.getElem?_cons_succ]
          exact ih hf hn

variable {g : Gathering} {i n : Nat} {f : Field}

/-- A field keeps its place; its count goes up by one if the incoming field has its key. -/
theorem getElem?_seen_absorbField (hf : g.record.fields[i]? = some f) (hn : g.seen[i]? = some n)
    (incoming : Field) :
    ∃ f' n', (g.absorbField m incoming).result.record.fields[i]? = some f' ∧
      f'.sourceKey = f.sourceKey ∧ (g.absorbField m incoming).result.seen[i]? = some n' ∧
      n' ≤ n + [incoming.sourceKey].count f.sourceKey := by
  rw [absorbField]
  cases hmerge : mergeInto? m g.record.name incoming g.record.fields with
  | some merged =>
    obtain ⟨hkeys, -, -⟩ := mergeInto?_frame hmerge
    have hkey : (merged.result.map Field.sourceKey)[i]? = some f.sourceKey := by
      rw [hkeys, List.getElem?_map, hf, Option.map_some]
    rw [List.getElem?_map, Option.map_eq_some_iff] at hkey
    obtain ⟨f', hf', hsame⟩ := hkey
    obtain ⟨n', hn', hle⟩ := getElem?_countKey incoming.sourceKey hf hn
    exact ⟨f', n', hf', hsame, hn', hle⟩
  | none =>
    refine ⟨f, n, ?_, rfl, ?_, Nat.le_add_right _ _⟩
    · rw [Reported.result_bind, Record.result_addReporting]
      change (g.record.fields ++ _)[i]? = _
      rw [List.getElem?_append_left (List.getElem?_eq_some_iff.mp hf).1, hf]
    · change (g.seen ++ [1])[i]? = _
      rw [List.getElem?_append_left (List.getElem?_eq_some_iff.mp hn).1, hn]

theorem getElem?_seen_absorbFields (hf : g.record.fields[i]? = some f) (hn : g.seen[i]? = some n)
    (fields : List Field) :
    ∃ n', (g.absorbFields m fields).result.seen[i]? = some n' ∧
      n' ≤ n + (fields.map Field.sourceKey).count f.sourceKey := by
  induction fields generalizing g f n with
  | nil => exact ⟨n, hn, Nat.le_refl _⟩
  | cons incoming fields ih =>
    obtain ⟨f₁, n₁, hf₁, hkey, hn₁, hle₁⟩ := getElem?_seen_absorbField (m := m) hf hn incoming
    obtain ⟨n₂, hn₂, hle₂⟩ := ih hf₁ hn₁
    refine ⟨n₂, hn₂, ?_⟩
    rw [hkey] at hle₂
    rw [List.map_cons, ← List.singleton_append, List.count_append]
    omega

/-- Fields grow also in what their presence says, if none that was missing before is seen in every
example now. -/
theorem allGrowTo_withPresence {fields fields' : List Field} {seen seen' : List Nat}
    {examples examples' : Nat} (hfields : Field.allGrowTo fields fields')
    (hseen : ∀ (i : Nat) (f : Field) (n : Nat), fields[i]? = some f → seen[i]? = some n →
      ∃ n', seen'[i]? = some n' ∧ (n < examples → n' < examples')) :
    Field.allGrowTo (withPresence examples fields seen)
      (withPresence examples' fields' seen') := by
  induction fields generalizing fields' seen seen' with
  | nil => rfl
  | cons f fields ih =>
    cases fields' with
    | nil => contradiction
    | cons f' fields' =>
      cases seen with
      | nil =>
        exact Field.allGrowTo_trans hfields (allGrowTo_withPresence_self ..)
      | cons n seen =>
        obtain ⟨hfirst, hrest⟩ := Field.allGrowTo_cons.mp hfields
        obtain ⟨n₀, hn₀, hlt⟩ := hseen 0 f n rfl rfl
        cases seen' with
        | nil => contradiction
        | cons n' seen' =>
          obtain rfl : n' = n₀ := by simpa using hn₀
          obtain ⟨hkey, hidentifier, hshape, hoptional⟩ := Field.growsTo_iff.mp hfirst
          refine Field.allGrowTo_cons.mpr ⟨Field.growsTo_iff.mpr ?_, ih hrest ?_⟩
          · refine ⟨hkey, hidentifier, hshape, fun ho => ?_⟩
            dsimp only at ho ⊢
            rw [Bool.or_eq_true, decide_eq_true_iff] at ho ⊢
            exact ho.imp hoptional hlt
          · exact fun i f n hf hn => hseen (i + 1) f n hf hn

/-- One more example. -/
theorem growsTo_finish_absorb (hm : ∀ a b, Record.MergesUp a b (m a b))
    (hg : FieldsDistinct g.record.records) {sample : Record}
    (hsample : FieldsDistinct sample.records) :
    g.finish.growsTo (g.absorb m sample).result.finish := by
  obtain ⟨⟨hkeys, -⟩, hinner⟩ := Record.forall_mem_records.mp hsample
  have hgrown := growsTo_absorbFields (g := { g with examples := g.examples + 1 }) hm hg hinner
  obtain ⟨hname, hfields⟩ := Record.growsTo_iff.mp hgrown
  obtain ⟨-, hexamples⟩ :=
    absorbFields_frame (m := m) { g with examples := g.examples + 1 } sample.fields
  refine Record.growsTo_iff.mpr ⟨hname, allGrowTo_withPresence hfields fun i f n hf hn => ?_⟩
  obtain ⟨n', hn', hle⟩ :=
    getElem?_seen_absorbFields (m := m) (g := { g with examples := g.examples + 1 }) hf hn
      sample.fields
  have hcount := List.nodup_iff_count_le_one.mp hkeys f.sourceKey
  rw [absorb, hexamples]
  rw [Record.sourceKeys] at hcount
  exact ⟨n', hn', fun hlt => by dsimp only; omega⟩

end Gathering

variable {initialisms : Initialisms}

theorem Record.fieldsDistinct_ofObject (initialisms : Initialisms) (name : String)
    {members : List (String × Value)} (h : (Value.object members).keysDistinct) :
    FieldsDistinct (ofObject initialisms name members).result.records := by
  have hinferred : Root.Inferred (.record (ofObject initialisms name members).result) :=
    ⟨initialisms, name, 0, .object members, _, h, rfl, rfl⟩
  have hnamed := Value.namedApart initialisms (.object members)
  exact fun r hr => ⟨hinferred.keysNodup r hr, hnamed name r hr⟩

namespace Gathering

variable {g : Gathering}

theorem fieldsDistinct_start (name : String) : FieldsDistinct (start name).record.records :=
  Record.forall_mem_records.mpr
    ⟨⟨List.nodup_nil, List.nodup_nil⟩, fun _ hf => absurd hf List.not_mem_nil⟩

theorem fieldsDistinct_ofObjects (hg : FieldsDistinct g.record.records) {values : List Value}
    (hkeys : ∀ v ∈ values, v.keysDistinct) :
    FieldsDistinct (ofObjects initialisms g values).result.record.records := by
  induction values generalizing g with
  | nil => exact hg
  | cons v values ih =>
    obtain ⟨hv, hrest⟩ := List.forall_mem_cons.mp hkeys
    rw [ofObjects, Reported.result_bind]
    refine ih ?_ hrest
    cases v with
    | object members =>
      exact forall_records_absorb Record.stable_distinct Record.stable_distinct.merge hg
        (Record.fieldsDistinct_ofObject initialisms g.record.name hv)
    | _ => exact hg

/-- Any number of further examples. -/
theorem growsTo_finish_ofObjects (hg : FieldsDistinct g.record.records) {values : List Value}
    (hkeys : ∀ v ∈ values, v.keysDistinct) :
    g.finish.growsTo (ofObjects initialisms g values).result.finish := by
  induction values generalizing g with
  | nil => exact Record.growsTo_refl g.finish
  | cons v values ih =>
    obtain ⟨hv, hrest⟩ := List.forall_mem_cons.mp hkeys
    have hfirst : FieldsDistinct (ofObjects initialisms g [v]).result.record.records :=
      fieldsDistinct_ofObjects hg (List.forall_mem_singleton.mpr hv)
    refine Record.growsTo_trans ?_ (ih hfirst hrest)
    cases v with
    | object members =>
      exact growsTo_finish_absorb Record.mergesUp_merge hg
        (Record.fieldsDistinct_ofObject initialisms g.record.name hv)
    | _ => exact Record.growsTo_refl g.finish

theorem ofObjects_append (g : Gathering) (values more : List Value) :
    ofObjects initialisms g (values ++ more) =
      (ofObjects initialisms g values >>= fun g => ofObjects initialisms g more) := by
  induction values generalizing g with
  | nil => rw [List.nil_append, ofObjects, pure_bind]
  | cons v values ih => simp only [List.cons_append, ofObjects, bind_assoc, ih]

end Gathering

/-- The record of examples may grow into the record of these and further ones. -/
theorem Record.growsTo_ofObjects (initialisms : Initialisms) (name : String)
    (values more : List Value) (hkeys : ∀ v ∈ values ++ more, v.keysDistinct) :
    (ofObjects initialisms name values).result.growsTo
      (ofObjects initialisms name (values ++ more)).result := by
  obtain ⟨hvalues, hmore⟩ := List.forall_mem_append.mp hkeys
  have hfirst : FieldsDistinct
      (Gathering.ofObjects initialisms (Gathering.start name) values).result.record.records :=
    Gathering.fieldsDistinct_ofObjects (Gathering.fieldsDistinct_start name) hvalues
  rw [ofObjects, ofObjects, Gathering.ofObjects_append]
  exact Gathering.growsTo_finish_ofObjects hfirst hmore

theorem Field.allGrowTo_iff {fields fields' : List Field} :
    Field.allGrowTo fields fields' ↔ ∃ kept added, fields' = kept ++ added ∧
      List.Forall₂ (fun f g => f.growsTo g) fields kept := by
  constructor
  · intro h
    induction fields generalizing fields' with
    | nil => exact ⟨[], fields', rfl, .nil⟩
    | cons f fields ih =>
      cases fields' with
      | nil => contradiction
      | cons g fields' =>
        obtain ⟨hfirst, hrest⟩ := Field.allGrowTo_cons.mp h
        obtain ⟨kept, added, rfl, hkept⟩ := ih hrest
        exact ⟨g :: kept, added, rfl, .cons hfirst hkept⟩
  · rintro ⟨kept, added, rfl, hkept⟩
    induction hkept with
    | nil => rfl
    | cons hfirst _ ih => exact Field.allGrowTo_cons.mpr ⟨hfirst, ih⟩

/-- Whatever examples follow, the fields of a record stay its first fields, in the same order and
under the same keys and identifiers. Optional fields stay optional, and shapes only grow. -/
theorem Record.ofObjects_append_grows (initialisms : Initialisms) (name : String)
    (xs zs : List (List (String × Value)))
    (hkeys : ∀ members ∈ xs ++ zs, (Value.object members).keysDistinct) :
    ∃ kept added, (ofObjects initialisms name ((xs ++ zs).map Value.object)).result.fields =
        kept ++ added ∧
      List.Forall₂ (fun f g => f.sourceKey = g.sourceKey ∧ f.identifier = g.identifier ∧
          (f.optional → g.optional) ∧ f.shape.growsTo g.shape)
        (ofObjects initialisms name (xs.map Value.object)).result.fields kept := by
  have hvalues : ∀ v ∈ xs.map Value.object ++ zs.map Value.object, v.keysDistinct := by
    rw [← List.map_append]
    exact List.forall_mem_map.mpr hkeys
  have hgrows := growsTo_ofObjects initialisms name _ _ hvalues
  rw [← List.map_append] at hgrows
  obtain ⟨kept, added, hfields, hkept⟩ := Field.allGrowTo_iff.mp (growsTo_iff.mp hgrows).2
  refine ⟨kept, added, hfields, hkept.imp fun f g hfg => ?_⟩
  obtain ⟨hkey, hidentifier, hshape, hoptional⟩ := Field.growsTo_iff.mp hfg
  exact ⟨hkey, hidentifier, hoptional, hshape⟩

/-- A number grows, a null element gives way to anything, and a record inside an array takes another
field. -/
theorem Record.ofObjects_append_grows_of_nested :
    let initialisms : Initialisms := ⟨["ID"]⟩
    let xs : List (List (String × Value)) :=
      [[("id", .integer 1), ("Id", .array [.null]), ("rows", .array [.object [("a", .null)]])]]
    let zs : List (List (String × Value)) :=
      [[("id", .integer (2 ^ 70)), ("Id", .array [.boolean true]),
        ("rows", .array [.object [("b", .integer 2), ("a", .string "x")]])]]
    (∀ members ∈ xs ++ zs, (Value.object members).keysDistinct) ∧
      (∃ kept added, (ofObjects initialisms "Item" ((xs ++ zs).map Value.object)).result.fields =
          kept ++ added ∧
        List.Forall₂ (fun f g => f.sourceKey = g.sourceKey ∧ f.identifier = g.identifier ∧
            (f.optional → g.optional) ∧ f.shape.growsTo g.shape)
          (ofObjects initialisms "Item" (xs.map Value.object)).result.fields kept) ∧
      (ofObjects initialisms "Item" (xs.map Value.object)).result.records.map
          (·.fields.map fun f => (f.identifier, f.shape.label, f.optional)) =
        [[("ID", "int64", false), ("ID2", "[]null", false), ("Rows", "[]struct Rows", false)],
          [("A", "null", false)]] ∧
      (ofObjects initialisms "Item" ((xs ++ zs).map Value.object)).result.records.map
          (·.fields.map fun f => (f.identifier, f.shape.label, f.optional)) =
        [[("ID", "big integer", false), ("ID2", "[]opaque", false),
            ("Rows", "[]struct Rows", false)],
          [("A", "string", true), ("B", "int64", true)]] := by
  intro initialisms xs zs
  have hkeys : ∀ members ∈ xs ++ zs, (Value.object members).keysDistinct := by decide
  exact ⟨hkeys, ofObjects_append_grows initialisms "Item" xs zs hkeys, by decide +kernel,
    by decide +kernel⟩

end Exemplar
