import Exemplar.Proofs.Arrangement
import Exemplar.Proofs.DistinctFields

/-!
# Identifiers stay unique

A record can be put together in many ways: field by field, from objects, by merging, and it can be
renamed and sorted in between. However it is made, no record in it has two fields of one identifier.
What carries this is the search for a free identifier, told here as the loop that it is. The loop
ends for every field and every record.
-/

namespace Exemplar

/-! The search as a loop -/

/-- The loop that looks for a free name, from a name and its number on. While the name is taken, the
number is raised and put behind the wanted name. The loop gives the name at which it ends, and
whether it went on past the first one. -/
inductive Fresh.Search (taken : List String) (wanted : String) :
    String → Nat → String × Bool → Prop where
  | found {name : String} {n : Nat} (hfree : name ∉ taken) :
    Fresh.Search taken wanted name n (name, decide (1 < n))
  | next {name : String} {n : Nat} {found : String × Bool} (htaken : name ∈ taken)
      (hrest : Fresh.Search taken wanted (wanted ++ toString (n + 1)) (n + 1) found) :
    Fresh.Search taken wanted name n found

namespace Fresh

variable {taken : List String} {wanted : String}

/-- The loop passes over the numbers whose names are taken, and stops at the first other one. -/
theorem Search.climb {first steps : Nat} (hfree : wanted ++ toString (first + steps) ∉ taken)
    (hbefore : ∀ k, first ≤ k → k < first + steps → wanted ++ toString k ∈ taken) :
    Search taken wanted (wanted ++ toString first) first
      (wanted ++ toString (first + steps), decide (1 < first + steps)) := by
  induction steps generalizing first with
  | zero => exact .found hfree
  | succ steps ih =>
    have hnumber : first + (steps + 1) = first + 1 + steps := by omega
    rw [hnumber] at hfree hbefore ⊢
    refine .next (hbefore first (by omega) (by omega)) (ih hfree ?_)
    intro k hle hlt
    exact hbefore k (by omega) hlt

/-- A number makes a name a different one. -/
theorem append_toString_ne (base : String) (n : Nat) : base ++ toString n ≠ base := by
  intro h
  have hlists : base.toList ++ (toString n).toList = base.toList := by
    rw [← String.toList_append, h]
  exact toList_toString_ne_nil n (List.append_right_eq_self.mp hlists)

/-- The loop ends at the free name, and says whether this is another one than was wanted. -/
theorem search_name (taken : List String) (wanted : String) :
    Search taken wanted wanted 1 (name taken wanted, decide (name taken wanted ≠ wanted)) := by
  by_cases hmem : wanted ∈ taken
  · obtain ⟨n, hn, hname, hfree, hbefore⟩ := name_of_mem hmem
    obtain ⟨steps, rfl⟩ := Nat.exists_eq_add_of_le hn
    have hclimb := Search.climb hfree hbefore
    have hflag : decide (1 < 2 + steps) = decide (name taken wanted ≠ wanted) := by
      rw [hname, decide_eq_decide]
      exact iff_of_true (by omega) (append_toString_ne wanted _)
    rw [← hname, hflag] at hclimb
    exact .next hmem hclimb
  · have hname := name_of_not_mem hmem
    have hflag : decide (name taken wanted ≠ wanted) = decide (1 < 1) := by simp [hname]
    rw [hname] at hflag ⊢
    rw [hflag]
    exact .found hmem

end Fresh

namespace Record

/-- How a field is added to a record: the loop ends, the field keeps its identifier if it is free,
and else takes the one with the least free number from 2 on. -/
structure AddsFree (r : Record) (f : Field) : Prop where
  added : (r.add f).1 =
    { r with fields := r.fields ++ [{ f with identifier := (r.renamed f).identifier }] }
  ends : Fresh.Search r.identifiers f.identifier f.identifier 1
    ((r.renamed f).identifier, (r.add f).2)
  kept : f.identifier ∉ r.identifiers → (r.renamed f).identifier = f.identifier
  numbered : f.identifier ∈ r.identifiers → ∃ n, 2 ≤ n ∧
    (r.renamed f).identifier = f.identifier ++ toString n ∧
    f.identifier ++ toString n ∉ r.identifiers ∧
    ∀ k, 2 ≤ k → k < n → f.identifier ++ toString k ∈ r.identifiers
  told : (r.add f).2 ↔ (r.renamed f).identifier ≠ f.identifier
  reported : (r.addReporting f).result = (r.add f).1 ∧
    ((r.addReporting f).events = [] ↔ (r.renamed f).identifier = f.identifier)

theorem addsFree (r : Record) (f : Field) : r.AddsFree f where
  added := rfl
  ends := by
    have hflag : decide ((r.renamed f).identifier ≠ f.identifier) = (r.add f).2 := by
      rw [Bool.eq_iff_iff, decide_eq_true_iff, r.changed_iff f]
    rw [← hflag]
    exact Fresh.search_name r.identifiers f.identifier
  kept := Fresh.name_of_not_mem
  numbered := Fresh.name_of_mem
  told := r.changed_iff f
  reported := by
    refine ⟨r.result_addReporting f, ?_⟩
    by_cases h : (r.renamed f).identifier = f.identifier
    · rw [addReporting_of_unchanged h]
      exact iff_of_true rfl h
    · rw [addReporting_of_changed h]
      exact iff_of_false (List.cons_ne_nil _ _) h

/-! Ways to make a record -/

/-- The record can be made by the operations on records, in any order. A field may be added under
any key and any identifier, as long as the record in it can be made too. -/
inductive Made : Record → Prop where
  | empty (name : String) : Made (.empty name)
  | add {r : Record} {f : Field} (hr : Made r)
    (hchild : ∀ child, f.child? = some child → Made child) : Made (r.add f).1
  | named (name : String) {r : Record} (hr : Made r) : Made { r with name }
  | sorted {r : Record} (hr : Made r) : Made r.sorted
  | object (initialisms : Initialisms) (name : String) (members : List (String × Value)) :
    Made (ofObject initialisms name members).result
  | objects (initialisms : Initialisms) (name : String)
      (examples : List (List (String × Value))) :
    Made (ofObjects initialisms name (examples.map Value.object)).result
  | merge {a b : Record} (ha : Made a) (hb : Made b) : Made (merge a b).result

theorem identifiersNodup_sorted {r : Record} (h : IdentifiersNodup r.records) :
    IdentifiersNodup r.sorted.records := by
  intro inner hinner
  obtain ⟨s, hs, rfl⟩ := List.mem_map.mp (r.records_sorted_perm.mem_iff.mp hinner)
  exact s.identifiers_sorted_perm.nodup_iff.mpr (h s hs)

theorem identifiersNodup_ofObjects (initialisms : Initialisms) (name : String)
    (values : List Value) :
    IdentifiersNodup (ofObjects initialisms name values).result.records := by
  have hvalues : ∀ v ∈ values, v.NamedApart initialisms := fun v _ => v.namedApart initialisms
  have hstart : IdentifiersNodup (Gathering.start name).record.records :=
    identifiersNodup_empty name
  exact (Gathering.forall_records_finish stable_identifiers).mpr
    (Value.identifiersNodup_ofObjects hvalues hstart)

theorem Made.identifiersNodup {r : Record} (h : r.Made) : IdentifiersNodup r.records := by
  induction h with
  | empty name => exact identifiersNodup_empty name
  | @add r f _ _ hr hchild =>
    refine identifiersNodup_add hr fun inner hinner => ?_
    obtain ⟨child, hheld, hin⟩ := Shape.mem_records.mp hinner
    exact hchild child hheld inner hin
  | @named name r _ hr =>
    obtain ⟨hown, hinner⟩ := forall_mem_records.mp hr
    exact forall_mem_records.mpr ⟨hown, hinner⟩
  | sorted _ hr => exact identifiersNodup_sorted hr
  | object initialisms name members =>
    exact Value.namedApart initialisms (.object members) name
  | objects initialisms name examples => exact identifiersNodup_ofObjects initialisms name _
  | merge _ _ ha hb => exact stable_identifiers.merge _ _ ha hb

/-- However a record is made, no record in it has two fields of one identifier. Adding a field to
any record ends, under the wanted identifier if it is free and else under the first numbered one. -/
theorem identifiers_stay_unique (r : Record) :
    (r.Made → ∀ inner ∈ r.records, inner.identifiers.Nodup) ∧ ∀ f, r.AddsFree f :=
  ⟨Made.identifiersNodup, r.addsFree⟩

/-- Fields of one key and clashing identifiers, one of them already numbered, in a record that is
sorted, renamed and merged with one from an object. -/
theorem identifiers_stay_unique_of_clashes :
    let clash := Field.plain "a" "A" (.scalar .int64)
    let numbered := Field.plain "b" "A2" (.scalar .null)
    let added := ((((empty "Item").add clash).1.add numbered).1.add clash).1
    let other := (ofObject Initialisms.standard "Item" [("a", .null), ("A", .integer 1)]).result
    let merged := (merge { added.sorted with name := "Other" } other).result
    added.identifiers = ["A", "A2", "A3"] ∧ merged.Made ∧
      (∀ inner ∈ merged.records, inner.identifiers.Nodup) ∧ merged.AddsFree clash := by
  intro clash numbered added other merged
  have hnone : ∀ {key identifier : String} {kind : ScalarKind} {child : Record},
      (Field.plain key identifier (.scalar kind)).child? = some child → child.Made :=
    fun h => nomatch h
  have hadded : added.Made :=
    (((Made.empty "Item").add fun _ => hnone).add fun _ => hnone).add fun _ => hnone
  have hmade : merged.Made := (hadded.sorted.named "Other").merge (.object _ _ _)
  have hlaw := identifiers_stay_unique merged
  exact ⟨by decide +kernel, hmade, hlaw.1 hmade, hlaw.2 clash⟩

end Record

end Exemplar
