import Exemplar.Event
import Exemplar.Token
import Exemplar.Proofs.Values
import Mathlib.Data.List.Basic

/-!
# The grammar of documents

A document is written as a tree of values. `Tree.tokens` writes it out; a token sequence belongs to
the language exactly if it is the tokens of a tree. What a document means is read off the tree:
`Tree.value` settles keys that stand twice in an object, and `Tree.repeats` lists them.
-/

namespace Exemplar

/-- A value as it is written. A key may stand twice in an object. -/
inductive Tree where
  | null
  | boolean (value : Bool)
  | string (text : String)
  | number (literal : String)
  | object (members : List (String × Tree))
  | array (elements : List Tree)

/-- Members of which the last one of each key counts, at the place of the first one. -/
def lastWins (members : List (String × Value)) : List (String × Value) :=
  (members.map Prod.fst).eraseDups.filterMap fun key =>
    (members.reverse.lookup key).map (key, ·)

namespace Tree

mutual

/-- The tokens of a value. -/
def tokens : Tree → List Token
  | null => [.null]
  | boolean b => [.boolean b]
  | string text => [.string text]
  | number literal => [.number literal]
  | object [] => [.leftBrace, .rightBrace]
  | object ((key, t) :: more) =>
    .leftBrace :: .string key :: .colon :: (t.tokens ++ moreMembers more)
  | array [] => [.leftBracket, .rightBracket]
  | array (t :: more) => .leftBracket :: (t.tokens ++ moreElements more)

/-- The rest of an object after a member: further members, each after a comma, and the brace. -/
def moreMembers : List (String × Tree) → List Token
  | [] => [.rightBrace]
  | (key, t) :: more => .comma :: .string key :: .colon :: (t.tokens ++ moreMembers more)

/-- The rest of an array after an element. -/
def moreElements : List Tree → List Token
  | [] => [.rightBracket]
  | t :: more => .comma :: (t.tokens ++ moreElements more)

end

mutual

/-- How many containers are nested in a value. -/
def depth : Tree → Nat
  | object members => membersDepth members + 1
  | array elements => elementsDepth elements + 1
  | _ => 0

/-- The largest depth of the values of members. -/
def membersDepth : List (String × Tree) → Nat
  | [] => 0
  | (_, t) :: more => max t.depth (membersDepth more)

/-- The largest depth of elements. -/
def elementsDepth : List Tree → Nat
  | [] => 0
  | t :: more => max t.depth (elementsDepth more)

end

mutual

/-- What a tree denotes. Every number that a lexer finds has a value, so that nothing else than
`null` itself denotes null. -/
def value : Tree → Value
  | null => .null
  | boolean b => .boolean b
  | string text => .string text
  | number literal => (Value.ofNumberText? literal).getD .null
  | object members => .object (lastWins (memberValues members))
  | array elements => .array (elementValues elements)

/-- The members of an object as they are written. -/
def memberValues : List (String × Tree) → List (String × Value)
  | [] => []
  | (key, t) :: more => (key, t.value) :: memberValues more

/-- The elements of an array. -/
def elementValues : List Tree → List Value
  | [] => []
  | t :: more => t.value :: elementValues more

end

mutual

/-- The keys that stand in an object again, each reported where the value of the repeated member
ends. -/
def repeats : Tree → List Event
  | object members => memberRepeats [] members
  | array elements => elementRepeats elements
  | _ => []

/-- The same for the members after those with the keys `seen`. -/
def memberRepeats (seen : List String) : List (String × Tree) → List Event
  | [] => []
  | (key, t) :: more =>
    t.repeats ++ (if key ∈ seen then [.duplicateKey key] else []) ++
      memberRepeats (seen ++ [key]) more

/-- The same for the elements of an array. -/
def elementRepeats : List Tree → List Event
  | [] => []
  | t :: more => t.repeats ++ elementRepeats more

end

/-- A value begins with a token, and one that begins a value. -/
theorem exists_tokens_eq_cons (t : Tree) :
    ∃ token rest, t.tokens = token :: rest ∧ token.startsValue := by
  cases t with
  | object members =>
    cases members with
    | nil => exact ⟨_, _, rfl, rfl⟩
    | cons m more => exact ⟨_, _, rfl, rfl⟩
  | array elements =>
    cases elements with
    | nil => exact ⟨_, _, rfl, rfl⟩
    | cons t more => exact ⟨_, _, rfl, rfl⟩
  | _ => exact ⟨_, _, rfl, rfl⟩

end Tree

private theorem setMember_filterMap {key : String} {value : Value} {keys : List String}
    {last : String → Option Value} (hnodup : keys.Nodup) (hlast : ∀ k ∈ keys, (last k).isSome) :
    Value.setMember key value (keys.filterMap fun k => (last k).map (k, ·)) =
      (keys ++ if key ∈ keys then [] else [key]).filterMap fun k =>
        (if k = key then some value else last k).map (k, ·) := by
  induction keys with
  | nil => simp [Value.setMember]
  | cons k keys ih =>
    obtain ⟨hnot, hnodup⟩ := List.nodup_cons.mp hnodup
    obtain ⟨hk, hrest⟩ := List.forall_mem_cons.mp hlast
    obtain ⟨v, hv⟩ := Option.isSome_iff_exists.mp hk
    rw [List.filterMap_cons_some (by rw [hv, Option.map_some]), Value.setMember]
    by_cases he : k = key
    · subst he
      have hsame : (keys.filterMap fun k' => (last k').map (k', ·)) =
          keys.filterMap fun k' => (if k' = k then some value else last k').map (k', ·) := by
        refine List.filterMap_congr fun k' hk' => ?_
        have hne : k' ≠ k := fun he => hnot (he ▸ hk')
        rw [if_neg hne]
      rw [if_pos rfl, if_pos List.mem_cons_self, List.append_nil, hsame,
        List.filterMap_cons_some (by rw [if_pos rfl, Option.map_some])]
    · have hmem : key ∈ k :: keys ↔ key ∈ keys := by
        rw [List.mem_cons]
        exact or_iff_right (Ne.symm he)
      rw [if_neg he, ih hnodup hrest, List.cons_append,
        List.filterMap_cons_some (by rw [if_neg he, hv, Option.map_some])]
      simp only [hmem]

theorem isSome_lookup_reverse {members : List (String × Value)} {key : String} :
    (members.reverse.lookup key).isSome ↔ key ∈ members.map Prod.fst := by
  rw [Examples.isSome_lookup_iff, List.map_reverse, List.mem_reverse]

/-- One more member. -/
theorem lastWins_append (members : List (String × Value)) (key : String) (value : Value) :
    lastWins (members ++ [(key, value)]) = Value.setMember key value (lastWins members) := by
  have hnodup := Examples.nodup_eraseDups (members.map Prod.fst)
  have hlast : ∀ k ∈ (members.map Prod.fst).eraseDups, (members.reverse.lookup k).isSome :=
    fun k hk => isSome_lookup_reverse.mpr (List.mem_eraseDups.mp hk)
  have hlookup : ∀ k, (members ++ [(key, value)]).reverse.lookup k =
      if k = key then some value else members.reverse.lookup k := by
    intro k
    rw [List.reverse_append, List.reverse_singleton, List.singleton_append, List.lookup_cons]
    by_cases he : k = key
    · rw [he, beq_self_eq_true, if_pos rfl]
    · rw [beq_eq_false_iff_ne.mpr he, if_neg he]
  rw [lastWins, lastWins, setMember_filterMap hnodup hlast, List.map_append, List.eraseDups_append]
  simp only [hlookup]
  congr 2
  by_cases hmem : key ∈ members.map Prod.fst
  · simp [List.removeAll, hmem]
  · simp [List.removeAll, hmem, List.eraseDups_cons]

example : lastWins [("a", .null), ("b", .boolean true), ("a", .boolean false)] =
    [("a", .boolean false), ("b", .boolean true)] := rfl

theorem map_fst_lastWins (members : List (String × Value)) :
    (lastWins members).map Prod.fst = (members.map Prod.fst).eraseDups := by
  have hkeep : ∀ keys : List String, (∀ k ∈ keys, (members.reverse.lookup k).isSome) →
      (keys.filterMap fun key => (members.reverse.lookup key).map (key, ·)).map Prod.fst =
        keys := by
    intro keys h
    induction keys with
    | nil => rfl
    | cons k keys ih =>
      obtain ⟨hk, hrest⟩ := List.forall_mem_cons.mp h
      obtain ⟨v, hv⟩ := Option.isSome_iff_exists.mp hk
      rw [List.filterMap_cons_some (by rw [hv, Option.map_some]), List.map_cons, ih hrest]
  exact hkeep _ fun k hk => isSome_lookup_reverse.mpr (List.mem_eraseDups.mp hk)

theorem mem_of_mem_lastWins {members : List (String × Value)} {m : String × Value}
    (h : m ∈ lastWins members) : m ∈ members := by
  obtain ⟨key, -, hm⟩ := List.mem_filterMap.mp h
  obtain ⟨v, hv, rfl⟩ := Option.map_eq_some_iff.mp hm
  obtain ⟨l₁, l₂, hsplit, -⟩ := List.lookup_eq_some_iff.mp hv
  have hmem : (key, v) ∈ members.reverse := by simp [hsplit]
  exact List.mem_reverse.mp hmem

namespace Tree

mutual

/-- What a tree denotes holds no key twice. -/
theorem keysDistinct_value : ∀ t : Tree, t.value.keysDistinct
  | null | boolean _ | string _ => rfl
  | number literal => by
    rw [value]
    cases h : Value.ofNumberText? literal with
    | none => rfl
    | some v =>
      obtain ⟨l, -, rfl⟩ := Option.map_eq_some_iff.mp h
      rw [Option.getD_some, Value.ofNumberLiteral]
      split
      · rfl
      · split <;> rfl
  | object members => by
    rw [value, Value.keysDistinct_object, map_fst_lastWins]
    exact ⟨Examples.nodup_eraseDups _, fun m hm =>
      keysDistinct_memberValues members m (mem_of_mem_lastWins hm)⟩
  | array elements => by
    rw [value, Value.keysDistinct_array]
    exact keysDistinct_elementValues elements

theorem keysDistinct_memberValues :
    ∀ (members : List (String × Tree)), ∀ m ∈ memberValues members, m.2.keysDistinct
  | [] => by simp [memberValues]
  | (key, t) :: more => by
    rw [memberValues, List.forall_mem_cons]
    exact ⟨keysDistinct_value t, keysDistinct_memberValues more⟩

theorem keysDistinct_elementValues :
    ∀ (elements : List Tree), ∀ v ∈ elementValues elements, v.keysDistinct
  | [] => by simp [elementValues]
  | t :: more => by
    rw [elementValues, List.forall_mem_cons]
    exact ⟨keysDistinct_value t, keysDistinct_elementValues more⟩

end

end Tree

end Exemplar
