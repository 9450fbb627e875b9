import Exemplar.Value

/-!
# Members, elements and the weight of values

The statements about inference speak of the members and elements that values hold, and their
recursions go down along the weight of values. An object of a document never holds a key twice;
the type of values does not say so, and `Value.keysDistinct` does.
-/

namespace Exemplar

namespace Value

/-- The members of an object; other values have none. -/
def members : Value → List (String × Value)
  | object members => members
  | _ => []

/-- The elements of an array; other values have none. -/
def elements : Value → List Value
  | array elements => elements
  | _ => []

/-- Whether a value is an array. -/
def isArray : Value → Bool
  | array _ => true
  | _ => false

mutual

/-- Whether no object inside a value holds a key twice. -/
def keysDistinct : Value → Bool
  | object members => decide (members.map Prod.fst).Nodup && membersDistinct members
  | array elements => elementsDistinct elements
  | _ => true

/-- The same for the values of the members of an object. -/
def membersDistinct : List (String × Value) → Bool
  | [] => true
  | (_, v) :: rest => v.keysDistinct && membersDistinct rest

/-- The same for the elements of an array. -/
def elementsDistinct : List Value → Bool
  | [] => true
  | v :: rest => v.keysDistinct && elementsDistinct rest

end

mutual

/-- How many values a value consists of, itself included. -/
def weight : Value → Nat
  | object members => memberWeight members + 1
  | array elements => totalWeight elements + 1
  | _ => 1

/-- The weight of the values of members. -/
def memberWeight : List (String × Value) → Nat
  | [] => 0
  | (_, v) :: rest => v.weight + memberWeight rest

/-- The weight of a list of values. -/
def totalWeight : List Value → Nat
  | [] => 0
  | v :: rest => v.weight + totalWeight rest

end

theorem membersDistinct_iff (members : List (String × Value)) :
    membersDistinct members ↔ ∀ m ∈ members, m.2.keysDistinct := by
  induction members with
  | nil => simp [membersDistinct]
  | cons m rest ih => simp [membersDistinct, ih]

theorem elementsDistinct_iff (elements : List Value) :
    elementsDistinct elements ↔ ∀ v ∈ elements, v.keysDistinct := by
  induction elements with
  | nil => simp [elementsDistinct]
  | cons v rest ih => simp [elementsDistinct, ih]

theorem keysDistinct_object (members : List (String × Value)) :
    (object members).keysDistinct ↔
      (members.map Prod.fst).Nodup ∧ ∀ m ∈ members, m.2.keysDistinct := by
  rw [keysDistinct, Bool.and_eq_true, decide_eq_true_iff, membersDistinct_iff]

theorem keysDistinct_array (elements : List Value) :
    (array elements).keysDistinct ↔ ∀ v ∈ elements, v.keysDistinct := by
  rw [keysDistinct, elementsDistinct_iff]

theorem object_members {v : Value} (h : v.isObject) : object v.members = v := by
  cases v <;> first | rfl | contradiction

theorem array_elements {v : Value} (h : v.isArray) : array v.elements = v := by
  cases v <;> first | rfl | contradiction

theorem scalarKind?_eq_null_iff (v : Value) : v.scalarKind? = some .null ↔ v.isNull := by
  cases v with
  | integer n =>
    rw [scalarKind?]
    split <;> simp [isNull]
  | _ => simp [scalarKind?, isNull]

theorem memberWeight_members_lt (v : Value) : memberWeight v.members < v.weight := by
  cases v <;> simp [weight, members, memberWeight]

theorem totalWeight_elements_lt (v : Value) : totalWeight v.elements < v.weight := by
  cases v <;> simp [weight, elements, totalWeight]

theorem totalWeight_append (vs ws : List Value) :
    totalWeight (vs ++ ws) = totalWeight vs + totalWeight ws := by
  induction vs with
  | nil => simp [totalWeight]
  | cons v vs ih => rw [List.cons_append, totalWeight, totalWeight, ih, Nat.add_assoc]

theorem totalWeight_filter_le (p : Value → Bool) (vs : List Value) :
    totalWeight (vs.filter p) ≤ totalWeight vs := by
  induction vs with
  | nil => exact Nat.le_refl _
  | cons v vs ih =>
    rw [List.filter_cons]
    split
    · rw [totalWeight, totalWeight]
      omega
    · rw [totalWeight]
      omega

/-- The elements of all values weigh less than the values, by at least one for each value. -/
theorem totalWeight_flatMap_elements_le (vs : List Value) :
    totalWeight (vs.flatMap elements) + vs.length ≤ totalWeight vs := by
  induction vs with
  | nil => exact Nat.le_refl _
  | cons v vs ih =>
    have hv := totalWeight_elements_lt v
    rw [List.flatMap_cons, totalWeight_append, totalWeight, List.length_cons]
    omega

theorem weight_le_memberWeight {m : String × Value} {ms : List (String × Value)} (h : m ∈ ms) :
    m.2.weight ≤ memberWeight ms := by
  induction ms with
  | nil => exact absurd h List.not_mem_nil
  | cons m' ms ih =>
    rw [memberWeight]
    rcases List.mem_cons.mp h with rfl | hm
    · omega
    · have := ih hm
      omega

theorem weight_le_totalWeight {v : Value} {vs : List Value} (h : v ∈ vs) :
    v.weight ≤ totalWeight vs := by
  induction vs with
  | nil => exact absurd h List.not_mem_nil
  | cons w vs ih =>
    rw [totalWeight]
    rcases List.mem_cons.mp h with rfl | hv
    · omega
    · have := ih hv
      omega

/-- What carries over from the values inside objects and arrays holds of all values. -/
theorem induct {P : Value → Prop}
    (hobject : ∀ members, (∀ m ∈ members, P m.2) → P (object members))
    (harray : ∀ elements, (∀ v ∈ elements, P v) → P (array elements))
    (hscalar : ∀ v : Value, v.isScalar → P v) (v : Value) : P v := by
  match v with
  | object members =>
    refine hobject members fun m hm => ?_
    have hlt : m.2.weight < (object members).weight :=
      Nat.lt_succ_of_le (weight_le_memberWeight hm)
    exact induct hobject harray hscalar m.2
  | array elements =>
    refine harray elements fun w hw => ?_
    have hlt : w.weight < (array elements).weight :=
      Nat.lt_succ_of_le (weight_le_totalWeight hw)
    exact induct hobject harray hscalar w
  | null | boolean _ | integer _ | float _ | decimal _ | string _ => exact hscalar _ rfl
termination_by v.weight

end Value

namespace Examples

/-- The keys of examples, each at its first occurrence. -/
def keys (examples : List (List (String × Value))) : List String :=
  (examples.flatMap (·.map Prod.fst)).eraseDups

/-- The values that a key has in those examples that hold it. -/
def observed (key : String) (examples : List (List (String × Value))) : List Value :=
  examples.filterMap (List.lookup key)

/-- Whether some example lacks a key. -/
def lacks (key : String) (examples : List (List (String × Value))) : Bool :=
  examples.any fun members => (members.lookup key).isNone

/-- The weight of all values in examples. -/
def weight : List (List (String × Value)) → Nat
  | [] => 0
  | members :: rest => Value.memberWeight members + weight rest

variable (key : String) (xs ys : List (List (String × Value)))

theorem observed_append : observed key (xs ++ ys) = observed key xs ++ observed key ys :=
  List.filterMap_append

theorem lacks_append : lacks key (xs ++ ys) = (lacks key xs || lacks key ys) :=
  List.any_append

theorem mem_keys : key ∈ keys xs ↔ ∃ members ∈ xs, key ∈ members.map Prod.fst := by
  rw [keys, List.mem_eraseDups, List.mem_flatMap]

theorem mem_keys_flatten {key : String} {groups : List (List (List (String × Value)))} :
    key ∈ keys groups.flatten ↔ ∃ group ∈ groups, key ∈ keys group := by
  rw [mem_keys]
  constructor
  · rintro ⟨members, hmembers, hkey⟩
    obtain ⟨group, hgroup, hin⟩ := List.mem_flatten.mp hmembers
    exact ⟨group, hgroup, (mem_keys key group).mpr ⟨members, hin, hkey⟩⟩
  · rintro ⟨group, hgroup, hkey⟩
    obtain ⟨members, hin, hmem⟩ := (mem_keys key group).mp hkey
    exact ⟨members, List.mem_flatten.mpr ⟨group, hgroup, hin⟩, hmem⟩

theorem isSome_lookup_iff (members : List (String × Value)) :
    (members.lookup key).isSome ↔ key ∈ members.map Prod.fst := by
  rw [List.lookup_isSome_iff, List.mem_map]
  constructor
  · rintro ⟨m, hm, hk⟩
    exact ⟨m, hm, (eq_of_beq hk).symm⟩
  · rintro ⟨m, hm, rfl⟩
    exact ⟨m, hm, beq_self_eq_true _⟩

theorem observed_eq_nil_iff : observed key xs = [] ↔ key ∉ keys xs := by
  rw [observed, List.filterMap_eq_nil_iff, mem_keys]
  constructor
  · rintro h ⟨members, hm, hk⟩
    have hsome := (isSome_lookup_iff key members).mpr hk
    rw [h members hm] at hsome
    exact absurd hsome (by simp)
  · intro h members hm
    cases hl : members.lookup key with
    | none => rfl
    | some v => exact absurd ⟨members, hm, (isSome_lookup_iff key members).mp (by simp [hl])⟩ h

/-- Without the key at all, every example lacks it. -/
theorem lacks_of_not_mem_keys {key : String} {xs : List (List (String × Value))} (hne : xs ≠ [])
    (h : key ∉ keys xs) : lacks key xs = true := by
  obtain ⟨members, rest, rfl⟩ := List.exists_cons_of_ne_nil hne
  have hnil := (observed_eq_nil_iff key _).mpr h
  rw [observed, List.filterMap_eq_nil_iff] at hnil
  rw [lacks, List.any_cons, hnil members List.mem_cons_self]
  rfl

/-- A key is missing in groups of examples if some group has it in some examples only, or if fewer
groups have it than there are. -/
theorem lacks_flatten (key : String) {groups : List (List (List (String × Value)))}
    (hne : ∀ group ∈ groups, group ≠ []) :
    lacks key groups.flatten =
      ((groups.any fun group => (keys group).contains key && lacks key group) ||
        decide ((groups.countP fun group => (keys group).contains key) < groups.length)) := by
  induction groups with
  | nil => rfl
  | cons group groups ih =>
    obtain ⟨hgroup, hrest⟩ := List.forall_mem_cons.mp hne
    rw [List.flatten_cons, lacks_append, ih hrest, List.any_cons, List.countP_cons,
      List.length_cons]
    by_cases hkey : key ∈ keys group
    · have hcontains : (keys group).contains key = true := by simpa using hkey
      rw [hcontains, if_pos rfl, Bool.true_and, Bool.or_assoc]
      simp only [Nat.add_lt_add_iff_right]
    · have hcontains : (keys group).contains key = false := by simpa using hkey
      have hle := List.countP_le_length (p := fun group => (keys group).contains key) (l := groups)
      have hlt : (groups.countP fun group => (keys group).contains key) + 0 <
          groups.length + 1 := by omega
      rw [lacks_of_not_mem_keys hgroup hkey, hcontains, if_neg Bool.false_ne_true,
        decide_eq_true hlt, Bool.true_or, Bool.or_true]

theorem totalWeight_observed_le : Value.totalWeight (observed key xs) ≤ weight xs := by
  induction xs with
  | nil => exact Nat.le_refl _
  | cons members xs ih =>
    have hcons : weight (members :: xs) = Value.memberWeight members + weight xs := rfl
    rw [observed, List.filterMap_cons]
    cases hl : members.lookup key with
    | none =>
      rw [hcons]
      exact Nat.le_trans ih (Nat.le_add_left _ _)
    | some v =>
      obtain ⟨l₁, l₂, hsplit, -⟩ := List.lookup_eq_some_iff.mp hl
      have hv : v.weight ≤ Value.memberWeight members :=
        Value.weight_le_memberWeight (m := (key, v)) (by simp [hsplit])
      rw [hcons]
      exact Nat.add_le_add hv ih

/-- The members of all values weigh less than the values, by at least one for each value. -/
theorem weight_map_members_le (vs : List Value) :
    weight (vs.map Value.members) + vs.length ≤ Value.totalWeight vs := by
  induction vs with
  | nil => exact Nat.le_refl _
  | cons v vs ih =>
    have hv := Value.memberWeight_members_lt v
    have hcons : weight ((v :: vs).map Value.members) =
        Value.memberWeight v.members + weight (vs.map Value.members) := rfl
    rw [hcons, Value.totalWeight, List.length_cons]
    omega

private theorem filter_eraseDups (p : String → Bool) (l : List String) :
    (l.filter p).eraseDups = l.eraseDups.filter p := by
  match l with
  | [] => rfl
  | k :: l =>
    have hlt : (l.filter fun b => !b == k).length < l.length + 1 :=
      Nat.lt_succ_of_le (List.length_filter_le _ _)
    rw [List.eraseDups_cons, List.filter_cons, List.filter_cons]
    split
    · rw [List.eraseDups_cons, List.filter_filter, ← filter_eraseDups p (l.filter _),
        List.filter_filter]
      congr 3
      funext b
      exact Bool.and_comm _ _
    · rename_i hk
      rw [← filter_eraseDups p (l.filter _), List.filter_filter]
      congr 1
      refine List.filter_congr fun b _ => ?_
      by_cases hb : b = k
      · simp [hb, hk]
      · simp [hb]
termination_by l.length

theorem nodup_eraseDups (l : List String) : l.eraseDups.Nodup := by
  match l with
  | [] => simp
  | k :: l =>
    have hlt : (l.filter fun b => !b == k).length < l.length + 1 :=
      Nat.lt_succ_of_le (List.length_filter_le _ _)
    rw [List.eraseDups_cons, List.nodup_cons]
    exact ⟨by simp, nodup_eraseDups _⟩
termination_by l.length

theorem nodup_keys : (keys xs).Nodup := nodup_eraseDups _

/-- Later examples add those of their keys that are new. -/
theorem keys_append :
    keys (xs ++ ys) = keys xs ++ (keys ys).filter fun key => !(keys xs).contains key := by
  rw [keys, List.flatMap_append, List.eraseDups_append, List.removeAll, filter_eraseDups]
  congr 1
  refine List.filter_congr fun k _ => ?_
  simp [keys]

theorem keys_singleton {members : List (String × Value)} (h : (members.map Prod.fst).Nodup) :
    keys [members] = members.map Prod.fst := by
  have hdup : ∀ l : List String, l.Nodup → l.eraseDups = l := by
    intro l
    induction l with
    | nil => intro _; rfl
    | cons k l ih =>
      intro hnd
      obtain ⟨hk, hl⟩ := List.nodup_cons.mp hnd
      have hfilter : (l.filter fun b => !b == k) = l := by
        refine List.filter_eq_self.mpr fun b hb => ?_
        have hne : b ≠ k := fun he => hk (he ▸ hb)
        simp [hne]
      rw [List.eraseDups_cons, hfilter, ih hl]
  rw [keys, List.flatMap_singleton, hdup _ h]

theorem lookup_of_mem {members : List (String × Value)} (h : (members.map Prod.fst).Nodup)
    {m : String × Value} (hm : m ∈ members) : members.lookup m.1 = some m.2 := by
  induction members with
  | nil => exact absurd hm List.not_mem_nil
  | cons m' members ih =>
    obtain ⟨hk, hnd⟩ := List.nodup_cons.mp h
    rcases List.mem_cons.mp hm with rfl | hrest
    · exact List.lookup_cons_self
    · have hne : m.1 ≠ m'.1 := fun he => hk (he ▸ List.mem_map_of_mem hrest)
      have hb : (m.1 == m'.1) = false := by simpa using hne
      rw [List.lookup_cons, hb]
      exact ih hnd hrest

end Examples

end Exemplar
