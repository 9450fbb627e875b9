import Exemplar.Proofs.ObtainedRecords

/-!
# Merging a record with itself

A record that is obtained from examples says all that there is to say about them, so the same
examples once more add nothing: merged with itself it stays as it is, and nothing is reported. This
needs that its fields are told apart by their keys, and that no slice has elements that do not even
join with themselves.
-/

namespace Exemplar

variable {m : RecordMerge}

namespace Shape

/-- The record in the shape, if any, stays as it is if it is merged with itself. -/
def MergesWithItself (m : RecordMerge) (a : Shape) : Prop :=
  ∀ r, a.record? = some r → m r r = pure r

/-- Elements with a common shape go on having it. -/
theorem elementJoin?_self :
    ∀ {a : Shape}, a.isElement → a.MergesWithItself m → a.elementJoin? m a = some (pure a)
  | scalar _, _, _ => by rw [elementJoin?, if_pos rfl]
  | structSlice r, _, hm => by
    rw [elementJoin?, hm r rfl]
    rfl
  | slice element, helement, hm => by
    rw [elementJoin?, elementJoin?_self (a := element) helement hm]
    rfl

theorem join?_self {a : Shape} (hregular : a.isRegular) (hm : a.MergesWithItself m) :
    a.join? m a = some (pure a) := by
  cases a with
  | scalar kind => cases kind <;> rfl
  | struct r =>
    rw [join?, hm r rfl]
    rfl
  | structSlice r =>
    rw [join?, hm r rfl]
    rfl
  | slice element =>
    rw [join?, elementJoin?_self hregular hm]
    rfl
  | anySlice => rfl
  | any => rfl

end Shape

/-- A field merged with itself stays as it is. -/
theorem Field.merge_self {f : Field} (hregular : f.shape.isRegular)
    (hm : f.shape.MergesWithItself m) (record : String) : f.merge m record f = pure f := by
  rw [Field.merge, Shape.join?_self hregular hm]
  cases f with
  | mk sourceKey identifier shape optional sample =>
    simp

namespace Gathering

/-- The first field of a key is the only one that is merged. -/
theorem mergeInto?_append {record : String} {before more : List Field} {f : Field}
    (hkey : f.sourceKey ∉ before.map Field.sourceKey) (hself : f.merge m record f = pure f) :
    mergeInto? m record f (before ++ f :: more) = some (pure (before ++ f :: more)) := by
  induction before with
  | nil =>
    rw [List.nil_append, mergeInto?, if_pos rfl, hself]
    rfl
  | cons first before ih =>
    rw [List.map_cons, List.mem_cons, not_or] at hkey
    rw [List.cons_append, mergeInto?, if_neg (Ne.symm hkey.1), ih hkey.2]
    rfl

theorem countKey_append {before more : List Field} {f : Field} {counts others : List Nat}
    (hkey : f.sourceKey ∉ before.map Field.sourceKey) (hlength : counts.length = before.length)
    (n : Nat) :
    countKey f.sourceKey (before ++ f :: more) (counts ++ n :: others) =
      counts ++ (n + 1) :: others := by
  induction before generalizing counts with
  | nil =>
    obtain rfl := List.eq_nil_of_length_eq_zero hlength
    rw [List.nil_append, List.nil_append, countKey, if_pos rfl]
    rfl
  | cons first before ih =>
    cases counts with
    | nil => contradiction
    | cons count counts =>
      rw [List.map_cons, List.mem_cons, not_or] at hkey
      rw [List.cons_append, List.cons_append, countKey, if_neg (Ne.symm hkey.1),
        ih hkey.2 (Nat.succ.inj hlength)]
      rfl

/-- A record whose fields are seen once more keeps them, and each has been seen once more. -/
theorem absorbFields_again {name : String} (before : List Field) {more : List Field}
    {examples : Nat} (hkeys : ((before ++ more).map Field.sourceKey).Nodup)
    (hself : ∀ f ∈ more, f.merge m name f = pure f) :
    absorbFields m
        ⟨⟨name, before ++ more⟩, before.map (fun _ => 2) ++ more.map fun _ => 1, examples⟩ more =
      pure ⟨⟨name, before ++ more⟩, (before ++ more).map fun _ => 2, examples⟩ := by
  induction more generalizing before with
  | nil => simp [absorbFields]
  | cons f more ih =>
    obtain ⟨hfirst, hrest⟩ := List.forall_mem_cons.mp hself
    have hkey : f.sourceKey ∉ before.map Field.sourceKey := by
      rw [List.map_append, List.nodup_append] at hkeys
      exact fun hin => hkeys.2.2 _ hin _ List.mem_cons_self rfl
    have happend : before ++ f :: more = before ++ [f] ++ more := by simp
    have hstep : absorbField m ⟨⟨name, before ++ f :: more⟩,
          before.map (fun _ => 2) ++ (f :: more).map fun _ => 1, examples⟩ f =
        pure ⟨⟨name, before ++ [f] ++ more⟩,
          (before ++ [f]).map (fun _ => 2) ++ more.map fun _ => 1, examples⟩ := by
      rw [absorbField, mergeInto?_append hkey hfirst]
      dsimp only
      rw [List.map_cons, countKey_append hkey (by simp)]
      simp
    rw [absorbFields, hstep, pure_bind]
    rw [happend] at hkeys ⊢
    exact ih (before ++ [f]) hkeys hrest

/-- Fields that are seen in every example are as optional as they were. -/
theorem withPresence_all (fields : List Field) :
    withPresence 2 fields (fields.map fun _ => 2) = fields := by
  induction fields with
  | nil => rfl
  | cons f fields ih =>
    rw [List.map_cons, withPresence, ih]
    cases f
    simp

end Gathering

namespace Record

/-- A record with distinct fields of regular shapes, merged with itself, stays as it is. -/
theorem merge_eq_self (r : Record) (hdistinct : FieldsDistinct r.records) (hregular : r.Regular) :
    merge r r = pure r := by
  induction r using Record.induct with
  | hstep name fields hinside =>
    obtain ⟨⟨hkeys, hidentifiers⟩, hinner⟩ := forall_mem_records.mp hdistinct
    have hself : ∀ f ∈ fields, f.merge merge name f = pure f := by
      intro f hf
      refine Field.merge_self (hregular f hf).own (fun r hr => ?_) name
      refine hinside f hf r hr ?_ (regular_iff.mpr ?_)
      · rw [← Shape.records_eq hr]
        exact hinner f hf
      · rw [← Shape.records_eq hr]
        exact (hregular f hf).inner
    have hmerge : merge ⟨name, fields⟩ ⟨name, fields⟩ =
        Gathering.finish <$> Gathering.absorbFields merge
          ⟨⟨name, fields⟩, fields.map fun _ => 1, 2⟩ fields :=
      (merge_eq _ _).trans (mergeWith_eq_of_distinct hkeys hidentifiers _)
    have hagain : Gathering.absorbFields merge ⟨⟨name, fields⟩, fields.map fun _ => 1, 2⟩ fields =
        pure ⟨⟨name, fields⟩, fields.map fun _ => 2, 2⟩ :=
      Gathering.absorbFields_again [] hkeys hself
    rw [hmerge, hagain, map_pure, Gathering.finish, Gathering.withPresence_all]

/-- However a record is obtained from examples, merging it with itself gives the same record, with
the same names, keys, identifiers, shapes and samples at every depth, and reports nothing. -/
theorem merge_obtained_self {r : Record} (h : r.Obtained) : merge r r = ⟨r, []⟩ :=
  merge_eq_self r h.fieldsDistinct h.regular

/-- Two objects differ in a field, and so do the arrays of arrays of objects that both hold. The
record that covers them is not changed by seeing them once more. -/
theorem merge_obtained_self_of_merge :
    let a := (ofObject Initialisms.standard "Item"
      [("rows", .array [.array [.object [("n", .integer 1)]]])]).result
    let b := (ofObject Initialisms.standard "Item"
      [("rows", .array [.array [.object [("n", .null), ("m", .boolean true)]]]),
        ("k", .null)]).result
    let r := (merge a b).result
    r.Obtained ∧ r.fields.map Field.optional = [false, true] ∧ merge r r = ⟨r, []⟩ := by
  intro a b r
  have ha : a.Obtained := .object Initialisms.standard "Item" (by decide)
  have hb : b.Obtained := .object Initialisms.standard "Item" (by decide)
  have hr : r.Obtained := .merge ha hb
  refine ⟨hr, ?_, merge_obtained_self hr⟩
  rfl

end Record

end Exemplar
