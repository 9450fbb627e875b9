import Exemplar.Proofs.AccountsInference
import Exemplar.Proofs.MergeAssociativity

/-!
# Examples in groups

The record of examples comes from merging in one example after another. Merging the records of two
groups comes to the same, down to the identifiers, if no key had to be numbered where the second
group was put together: a key that was numbered there keeps its number, and is numbered once more
where it meets the first group.
-/

namespace Exemplar

variable {initialisms : Initialisms}

/-- What merging reports does not depend on what is optional. -/
theorem Field.events_merge_optional (m : RecordMerge) (record : String) (f g : Field)
    (optional : Bool) :
    (Field.merge m record { f with optional } g).events = (f.merge m record g).events := by
  rw [Field.merge, Field.merge]
  cases f.shape.join? m g.shape with
  | some joined => rfl
  | none =>
    dsimp only
    split <;> rfl

namespace Gathering

/-- A gathering of fields with distinct names, none counted more often than there were examples. -/
inductive Counted : Gathering → Prop where
  | intro {name : String} {rows : List (Field × Nat)} {examples : Nat}
    (hcounts : ∀ row ∈ rows, row.2 ≤ examples)
    (hdistinct : FieldsDistinct (ofRows name rows examples).record.records) :
    Counted (ofRows name rows examples)

variable {g : Gathering}

theorem counted_start (name : String) : (start name).Counted := by
  have hrows : start name = ofRows name [] 0 := rfl
  rw [hrows]
  exact .intro (fun _ h => absurd h List.not_mem_nil) (fieldsDistinct_start name)

theorem Counted.distinct (h : g.Counted) : FieldsDistinct g.record.records := by
  cases h with
  | intro _ hdistinct => exact hdistinct

theorem countedIn_le {m : RecordMerge} {fields : List Field} {row : Field × Nat} {examples : Nat}
    (h : row.2 ≤ examples) : (countedIn m fields row).2 ≤ examples + 1 := by
  rw [countedIn]
  split
  · exact Nat.succ_le_succ h
  · exact Nat.le_succ_of_le h

/-- One more example. -/
theorem Counted.absorb (h : g.Counted) {sample : Record} (hsample : FieldsDistinct sample.records) :
    (g.absorb Record.merge sample).result.Counted := by
  have hdistinct := forall_records_absorb Record.stable_distinct Record.stable_distinct.merge
    h.distinct hsample
  cases h with
  | @intro name rows examples hcounts hrows =>
    rw [absorb_ofRows hrows.own.1 hsample.own.1] at hdistinct ⊢
    refine .intro (fun row hrow => ?_) hdistinct
    rcases List.mem_append.mp hrow with hold | hnew
    · obtain ⟨before, hbefore, rfl⟩ := List.mem_map.mp hold
      exact countedIn_le (hcounts before hbefore)
    · obtain ⟨f, -, rfl⟩ := List.mem_map.mp hnew
      exact Nat.succ_le_succ (Nat.zero_le _)

/-- It is merged into the record of those before, if there are any. -/
theorem Counted.finish_absorb (h : g.Counted) (hpos : 0 < g.examples) {sample : Record}
    (hsample : FieldsDistinct sample.records) :
    (g.absorb Record.merge sample).result.finish = (Record.merge g.finish sample).result := by
  have hfinish := (forall_records_finish Record.stable_distinct).mpr h.distinct
  rw [Record.result_merge hfinish hsample]
  cases h with
  | intro hcounts hrows =>
    exact finish_absorb_ofRows hrows.own.1 hsample.own.1 hpos hcounts

/-- Any number of examples. -/
theorem Counted.ofObjects (h : g.Counted) {values : List Value}
    (hkeys : ∀ v ∈ values, v.keysDistinct) :
    (Gathering.ofObjects initialisms g values).result.Counted := by
  induction values generalizing g with
  | nil => exact h
  | cons v values ih =>
    obtain ⟨hv, hrest⟩ := List.forall_mem_cons.mp hkeys
    refine ih ?_ hrest
    cases v with
    | object members => exact h.absorb (Record.fieldsDistinct_ofObject initialisms g.record.name hv)
    | _ => exact h

theorem examples_ofObjects (g : Gathering) (examples : List (List (String × Value))) :
    (ofObjects initialisms g (examples.map Value.object)).result.examples =
      g.examples + examples.length := by
  induction examples generalizing g with
  | nil => rfl
  | cons members examples ih =>
    have hfirst : (ofObject initialisms g (.object members)).result.examples = g.examples + 1 :=
      (absorbFields_frame _ (Record.ofObject initialisms g.record.name members).result.fields).2
    rw [List.map_cons, ofObjects, Reported.result_bind, ih, hfirst, List.length_cons]
    omega

end Gathering

namespace Record

variable (initialisms) (name : String) {examples : List (List (String × Value))}
  {members : List (String × Value)}

/-- The examples, put together but not finished. -/
def gathered (examples : List (List (String × Value))) : Reported Gathering :=
  Gathering.ofObjects initialisms (Gathering.start name) (examples.map Value.object)

/-- The last example is described alone and then taken in. -/
theorem gathered_concat (examples : List (List (String × Value)))
    (members : List (String × Value)) :
    gathered initialisms name (examples ++ [members]) = (do
      let g ← gathered initialisms name examples
      let sample ← ofObject initialisms name members
      g.absorb merge sample) := by
  rw [gathered, List.map_append, Gathering.ofObjects_append]
  refine Reported.bind_congr_result ?_
  have hname : (gathered initialisms name examples).result.record.name = name :=
    Gathering.name_ofObjects ..
  have hlast : ∀ g : Gathering, Gathering.ofObjects initialisms g [.object members] =
      (ofObject initialisms g.record.name members >>= g.absorb merge) := by
    intro g
    simp only [Gathering.ofObjects, Gathering.ofObject, bind_pure]
    rfl
  rw [gathered] at hname
  rw [List.map_singleton, hlast, hname]

theorem ofObjects_eq_gathered :
    ofObjects initialisms name (examples.map Value.object) =
      Gathering.finish <$> gathered initialisms name examples := rfl

theorem counted_gathered (hkeys : ∀ members ∈ examples, (Value.object members).keysDistinct) :
    (gathered initialisms name examples).result.Counted :=
  (Gathering.counted_start name).ofObjects (List.forall_mem_map.mpr hkeys)

theorem name_ofObject : (ofObject initialisms name members).result.name = name :=
  (Value.accounted initialisms (.object members) name).1

/-- The first example is taken in as it is, and nothing more is reported. -/
theorem absorb_ofObject_start (h : (Value.object members).keysDistinct) :
    (Gathering.start name).absorb merge (ofObject initialisms name members).result =
      pure ⟨(ofObject initialisms name members).result,
        (ofObject initialisms name members).result.fields.map fun _ => 1, 1⟩ := by
  have hdistinct := fieldsDistinct_ofObject initialisms name h
  have hstart := Gathering.absorb_start (m := merge) hdistinct.own.1 hdistinct.own.2
  rwa [name_ofObject] at hstart

/-- The record of one example. -/
theorem result_ofObjects_singleton (h : (Value.object members).keysDistinct) :
    (ofObjects initialisms name ([members].map Value.object)).result =
      (ofObject initialisms name members).result := by
  have hgathered := gathered_concat initialisms name [] members
  rw [List.nil_append] at hgathered
  have hstart : (gathered initialisms name []).result = Gathering.start name := rfl
  rw [ofObjects_eq_gathered, hgathered, Reported.result_map, Reported.result_bind,
    Reported.result_bind, hstart, absorb_ofObject_start initialisms name h, Reported.result_pure,
    ← Gathering.ofRows_once, Gathering.finish_ofRows_once]

/-- The record of examples and one more. -/
theorem result_ofObjects_concat (hne : examples ≠ [])
    (hkeys : ∀ members ∈ examples, (Value.object members).keysDistinct)
    (h : (Value.object members).keysDistinct) :
    (ofObjects initialisms name ((examples ++ [members]).map Value.object)).result =
      (merge (ofObjects initialisms name (examples.map Value.object)).result
        (ofObject initialisms name members).result).result := by
  have hpos : 0 < (gathered initialisms name examples).result.examples := by
    rw [gathered, Gathering.examples_ofObjects]
    exact Nat.lt_of_lt_of_le (List.length_pos_of_ne_nil hne) (Nat.le_add_left ..)
  exact (congrArg (fun g => g.result.finish) (gathered_concat ..)).trans
    ((counted_gathered initialisms name hkeys).finish_absorb hpos
      (fieldsDistinct_ofObject initialisms name h))

/-! Collisions -/

/-- The collisions inside single examples. -/
def ownCollisions (examples : List (List (String × Value))) : List Event :=
  examples.flatMap fun members =>
    (ofObject initialisms name members).events.filter Event.isCollision

/-- The collisions reported in the course of examples. -/
def collisions (examples : List (List (String × Value))) : List Event :=
  (ofObjects initialisms name (examples.map Value.object)).events.filter Event.isCollision

theorem ownCollisions_concat :
    ownCollisions initialisms name (examples ++ [members]) =
      ownCollisions initialisms name examples ++
        (ofObject initialisms name members).events.filter Event.isCollision := by
  rw [ownCollisions, List.flatMap_append, List.flatMap_singleton]
  rfl

theorem collisions_concat :
    collisions initialisms name (examples ++ [members]) =
      collisions initialisms name examples ++
        (ofObject initialisms name members).events.filter Event.isCollision ++
          ((gathered initialisms name examples).result.absorb merge
            (ofObject initialisms name members).result).events.filter Event.isCollision := by
  simp only [collisions, ofObjects_eq_gathered, Reported.events_map, gathered_concat,
    Reported.events_bind, List.filter_append, List.append_assoc]

theorem length_ownCollisions_le (examples : List (List (String × Value))) :
    (ownCollisions initialisms name examples).length ≤
      (collisions initialisms name examples).length := by
  induction examples using List.reverseRecOn with
  | nil => exact Nat.zero_le _
  | append_singleton examples members ih =>
    rw [ownCollisions_concat, collisions_concat, List.length_append, List.length_append,
      List.length_append]
    omega

/-- If there are no other collisions, no key is numbered when the last example is taken in. -/
theorem noCollision_of_concat
    (h : collisions initialisms name (examples ++ [members]) =
      ownCollisions initialisms name (examples ++ [members])) :
    collisions initialisms name examples = ownCollisions initialisms name examples ∧
      NoCollision ((gathered initialisms name examples).result.absorb merge
        (ofObject initialisms name members).result).events := by
  rw [collisions_concat, ownCollisions_concat] at h
  have hle := length_ownCollisions_le initialisms name examples
  have hlength := congrArg List.length h
  rw [List.length_append, List.length_append, List.length_append] at hlength
  have hnone : ((gathered initialisms name examples).result.absorb merge
      (ofObject initialisms name members).result).events.filter Event.isCollision = [] :=
    List.eq_nil_of_length_eq_zero (by omega)
  rw [hnone, List.append_nil] at h
  refine ⟨List.append_cancel_right h, fun e he => ?_⟩
  exact Bool.eq_false_of_not_eq_true (List.filter_eq_nil_iff.mp hnone e he)

/-- Counting examples changes nothing that merging reports. -/
theorem MergesPlainly.finish {g : Gathering} {sample : Record}
    (h : g.record.MergesPlainly sample) : g.finish.MergesPlainly sample := by
  have hinner : ∀ f ∈ g.finish.fields, ∀ incoming ∈ sample.fields,
      incoming.sourceKey = f.sourceKey →
        NoCollision (f.merge merge g.record.name incoming).events :=
    (Gathering.forall_mem_withPresence (fun f optional => by
      simp only [Field.events_merge_optional]) ..).mpr h.inner
  refine ⟨hinner, ?_⟩
  rw [Gathering.identifiers_finish, unknown, Gathering.sourceKeys_finish]
  exact h.own

/-- Merging the records of two groups of examples gives the record of all of them, with the same
identifiers at every depth, if putting the second group together reports no collisions but those
inside its examples. -/
theorem merge_ofObjects_eq_of_no_collision (initialisms : Initialisms) (name : String)
    (xs ys : List (List (String × Value))) (hx : xs ≠ []) (hy : ys ≠ [])
    (hkeys : ∀ members ∈ xs ++ ys, (Value.object members).keysDistinct)
    (hquiet : collisions initialisms name ys = ownCollisions initialisms name ys) :
    (merge (ofObjects initialisms name (xs.map Value.object)).result
        (ofObjects initialisms name (ys.map Value.object)).result).result =
      (ofObjects initialisms name ((xs ++ ys).map Value.object)).result := by
  induction ys using List.reverseRecOn with
  | nil => contradiction
  | append_singleton ys members ih =>
    obtain ⟨hkeysX, hkeysY⟩ := List.forall_mem_append.mp hkeys
    obtain ⟨hothers, hlast⟩ := List.forall_mem_append.mp hkeysY
    have hmembers := hlast members List.mem_cons_self
    have hkeysXY := List.forall_mem_append.mpr ⟨hkeysX, hothers⟩
    have hxy : xs ++ ys ≠ [] := fun he => hx (List.append_eq_nil_iff.mp he).1
    rw [← List.append_assoc, result_ofObjects_concat initialisms name hxy hkeysXY hmembers]
    by_cases hys : ys = []
    · subst hys
      rw [List.nil_append, List.append_nil, result_ofObjects_singleton initialisms name hmembers]
    · obtain ⟨hbefore, hnow⟩ := noCollision_of_concat initialisms name hquiet
      let g := (gathered initialisms name ys).result
      have hcounted : g.Counted := counted_gathered initialisms name hothers
      have hplain : g.record.MergesPlainly (ofObject initialisms name members).result :=
        .of_absorbFields (g := { g with examples := g.examples + 1 }) hcounted.distinct.own.1
          (fieldsDistinct_ofObject initialisms name hmembers).own.1 hnow
      have hassoc := merge_assoc (Obtained.objects initialisms name hkeysX).fieldsDistinct
        (Obtained.objects initialisms name hothers).fieldsDistinct
        (fieldsDistinct_ofObject initialisms name hmembers) hplain.finish
      rw [result_ofObjects_concat initialisms name hys hothers hmembers, hassoc,
        ih hys hkeysXY hbefore]

/-- The second group numbers a key inside its first example only, and has it once more. -/
theorem merge_ofObjects_eq_of_own_collision :
    let xs : List (List (String × Value)) := [[("a_b", .integer 1)], [("aB", .integer 1)]]
    let ys : List (List (String × Value)) :=
      [[("a-b", .object [("n", .integer 1)]), ("a_b", .null)],
        [("a_b", .integer 2), ("a-b", .object [("m", .null)])]]
    xs ≠ [] ∧ ys ≠ [] ∧ (∀ members ∈ xs ++ ys, (Value.object members).keysDistinct) ∧
      collisions Initialisms.standard "Item" ys = ownCollisions Initialisms.standard "Item" ys ∧
      (merge (ofObjects Initialisms.standard "Item" (xs.map Value.object)).result
          (ofObjects Initialisms.standard "Item" (ys.map Value.object)).result).result =
        (ofObjects Initialisms.standard "Item" ((xs ++ ys).map Value.object)).result := by
  intro xs ys
  have hx : xs ≠ [] := by simp [xs]
  have hy : ys ≠ [] := by simp [ys]
  have hkeys : ∀ members ∈ xs ++ ys, (Value.object members).keysDistinct := by decide
  have hquiet : collisions Initialisms.standard "Item" ys =
      ownCollisions Initialisms.standard "Item" ys := by decide +kernel
  exact ⟨hx, hy, hkeys, hquiet,
    merge_ofObjects_eq_of_no_collision Initialisms.standard "Item" xs ys hx hy hkeys hquiet⟩

/-- Three keys of one identifier. The second group numbers the third key with 2, and where it meets
the first group this is numbered with 2 once more. Put together, the key has the number 3. -/
theorem numbered_twice_in_groups :
    let xs : List (List (String × Value)) := [[("a_b", .integer 1)]]
    let ys : List (List (String × Value)) := [[("aB", .integer 1)], [("a-b", .integer 1)]]
    xs ≠ [] ∧ ys ≠ [] ∧ (∀ members ∈ xs ++ ys, (Value.object members).keysDistinct) ∧
      ∃ f ∈ (merge (ofObjects Initialisms.standard "Root" (xs.map Value.object)).result
          (ofObjects Initialisms.standard "Root" (ys.map Value.object)).result).result.fields,
        ∃ g ∈ (ofObjects Initialisms.standard "Root" ((xs ++ ys).map Value.object)).result.fields,
          f.sourceKey = "a-b" ∧ g.sourceKey = "a-b" ∧ f.identifier = "AB22" ∧
            g.identifier = "AB3" := by
  intro xs ys
  have hgroups : ("a-b", "AB22") ∈
      (merge (ofObjects Initialisms.standard "Root" (xs.map Value.object)).result
        (ofObjects Initialisms.standard "Root" (ys.map Value.object)).result).result.bindings := by
    decide +kernel
  have htogether : ("a-b", "AB3") ∈ (ofObjects Initialisms.standard "Root"
      ((xs ++ ys).map Value.object)).result.bindings := by
    decide +kernel
  obtain ⟨f, hf, hkey, hidentifier⟩ := mem_bindings.mp hgroups
  obtain ⟨g, hg, hkey', hidentifier'⟩ := mem_bindings.mp htogether
  exact ⟨by simp [xs], by simp [ys], by decide, f, hf, g, hg, hkey, hkey', hidentifier,
    hidentifier'⟩

end Record

end Exemplar
