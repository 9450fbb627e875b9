import Exemplar.Reader
import Exemplar.Proofs.NumberTokens

/-!
# The reader accepts the grammar

A document is read token by token. `Building.run` feeds tokens to a document until it is complete
and gives back the tokens that are left. It consumes the tokens of a tree and gives what the tree
denotes, and whatever it accepts begins with the tokens of a tree. Nothing here looks at bytes.
-/

namespace Exemplar

/-- A tree stays within the depth limit below `around` open containers, and its numbers have
values. -/
structure Tree.Fits (limit around : Nat) (t : Tree) : Prop where
  depth : t.depth ≤ limit - around
  denotes : ∀ token ∈ t.tokens, token.denotes

namespace Tree

theorem membersDepth_le_iff {members : List (String × Tree)} {n : Nat} :
    membersDepth members ≤ n ↔ ∀ m ∈ members, m.2.depth ≤ n := by
  induction members with
  | nil => simp [membersDepth]
  | cons m more ih =>
    rw [membersDepth, Nat.max_le, ih, List.forall_mem_cons]

theorem elementsDepth_le_iff {elements : List Tree} {n : Nat} :
    elementsDepth elements ≤ n ↔ ∀ t ∈ elements, t.depth ≤ n := by
  induction elements with
  | nil => simp [elementsDepth]
  | cons t more ih =>
    rw [elementsDepth, Nat.max_le, ih, List.forall_mem_cons]

theorem denotes_moreMembers {members : List (String × Tree)} :
    (∀ token ∈ moreMembers members, token.denotes) ↔
      ∀ m ∈ members, ∀ token ∈ m.2.tokens, token.denotes := by
  induction members with
  | nil => simp [moreMembers, Token.denotes]
  | cons m more ih =>
    rw [moreMembers, List.forall_mem_cons, List.forall_mem_cons, List.forall_mem_cons,
      List.forall_mem_append, ih, List.forall_mem_cons]
    simp [Token.denotes]

theorem denotes_moreElements {elements : List Tree} :
    (∀ token ∈ moreElements elements, token.denotes) ↔
      ∀ t ∈ elements, ∀ token ∈ t.tokens, token.denotes := by
  induction elements with
  | nil => simp [moreElements, Token.denotes]
  | cons t more ih =>
    rw [moreElements, List.forall_mem_cons, List.forall_mem_append, ih, List.forall_mem_cons]
    simp [Token.denotes]

theorem fits_object_iff {limit around : Nat} {members : List (String × Tree)} :
    (object members).Fits limit around ↔
      around + 1 ≤ limit ∧ ∀ m ∈ members, m.2.Fits limit (around + 1) := by
  have htokens : (∀ token ∈ (object members).tokens, token.denotes) ↔
      ∀ m ∈ members, ∀ token ∈ m.2.tokens, token.denotes := by
    rw [← denotes_moreMembers]
    cases members with
    | nil => simp [tokens, moreMembers, Token.denotes]
    | cons m more => simp [tokens, moreMembers, Token.denotes]
  constructor
  · rintro ⟨hdepth, hdenotes⟩
    rw [depth] at hdepth
    have hmembers :=
      membersDepth_le_iff.mp (show membersDepth members ≤ limit - (around + 1) by omega)
    exact ⟨by omega, fun m hm => ⟨hmembers m hm, htokens.mp hdenotes m hm⟩⟩
  · rintro ⟨hlimit, hmembers⟩
    have hdepth := membersDepth_le_iff.mpr fun m hm => (hmembers m hm).depth
    refine ⟨?_, htokens.mpr fun m hm => (hmembers m hm).denotes⟩
    rw [depth]
    omega

theorem fits_array_iff {limit around : Nat} {elements : List Tree} :
    (array elements).Fits limit around ↔
      around + 1 ≤ limit ∧ ∀ t ∈ elements, t.Fits limit (around + 1) := by
  have htokens : (∀ token ∈ (array elements).tokens, token.denotes) ↔
      ∀ t ∈ elements, ∀ token ∈ t.tokens, token.denotes := by
    rw [← denotes_moreElements]
    cases elements with
    | nil => simp [tokens, moreElements, Token.denotes]
    | cons t more => simp [tokens, moreElements, Token.denotes]
  constructor
  · rintro ⟨hdepth, hdenotes⟩
    rw [depth] at hdepth
    have helements :=
      elementsDepth_le_iff.mp (show elementsDepth elements ≤ limit - (around + 1) by omega)
    exact ⟨by omega, fun t ht => ⟨helements t ht, htokens.mp hdenotes t ht⟩⟩
  · rintro ⟨hlimit, helements⟩
    have hdepth := elementsDepth_le_iff.mpr fun t ht => (helements t ht).depth
    refine ⟨?_, htokens.mpr fun t ht => (helements t ht).denotes⟩
    rw [depth]
    omega

end Tree

/-- A document, what was reported on the way to it, and the tokens after it. -/
abbrev Run := Option (Value × List Event × List Token)

/-- The same run with events before its own. -/
def Run.after (events : List Event) (run : Run) : Run :=
  run.map fun (value, reported, rest) => (value, events ++ reported, rest)

@[simp] theorem Run.after_nil (run : Run) : Run.after [] run = run := by
  cases run <;> rfl

theorem Run.after_after (events reported : List Event) (run : Run) :
    Run.after events (Run.after reported run) = Run.after (events ++ reported) run := by
  cases run with
  | none => rfl
  | some r => simp [Run.after]

theorem Run.isSome_after {events : List Event} {run : Run} :
    (Run.after events run).isSome = run.isSome := by
  cases run <;> rfl

/-- Feeds tokens to a document until it is complete. -/
def Building.run (limit unclosed : Nat) : Building → List Token → Run
  | _, [] => none
  | building, token :: rest =>
    match building.step limit unclosed token with
    | .pending next events => Run.after events (run limit unclosed next rest)
    | .complete value events => some (value, events, rest)
    | .refused _ => none

/-- What comes of the progress that a token has made. -/
def Progress.run (limit unclosed : Nat) (rest : List Token) : Progress → Run
  | .pending next events => Run.after events (next.run limit unclosed rest)
  | .complete value events => some (value, events, rest)
  | .refused _ => none

namespace Building

variable {limit unclosed : Nat}

theorem run_cons (building : Building) (token : Token) (rest : List Token) :
    building.run limit unclosed (token :: rest) =
      (building.step limit unclosed token).run limit unclosed rest := by
  rw [run]
  cases building.step limit unclosed token <;> rfl

theorem run_enter {around : List Frame} (opened : Building) (rest : List Token)
    (h : unclosed + around.length + 1 ≤ limit) :
    (enter limit unclosed around opened).run limit unclosed rest =
      opened.run limit unclosed rest := by
  rw [enter, if_pos h]
  exact Run.after_nil _

theorem deliver_ne_refused (value : Value) (around : List Frame) (defect : Defect) :
    deliver value around ≠ .refused defect := by
  cases around with
  | nil => exact Progress.noConfusion
  | cons frame around => cases frame <;> exact Progress.noConfusion

/-- The first element of an array is read like any other. -/
theorem run_openedArray (around : List Frame) {token : Token} (h : token ≠ .rightBracket)
    (rest : List Token) :
    (openedArray around).run limit unclosed (token :: rest) =
      (awaitingValue (.array [] :: around)).run limit unclosed (token :: rest) := by
  rw [run_cons, run_cons]
  cases token <;> first | rfl | contradiction

theorem run_deliver_element (elements : List Value) (v : Value) (around : List Frame)
    (rest : List Token) :
    (deliver v (.array elements :: around)).run limit unclosed rest =
      (afterElement (v :: elements) around).run limit unclosed rest :=
  Run.after_nil _

theorem run_deliver_member (members : List (String × Value)) (key : String) (v : Value)
    (around : List Frame) (rest : List Token) :
    (deliver v (.object (lastWins members) key :: around)).run limit unclosed rest =
      Run.after (if key ∈ members.map Prod.fst then [.duplicateKey key] else [])
        ((afterMember (lastWins (members ++ [(key, v)])) around).run limit unclosed rest) := by
  have hany : (lastWins members).any (·.1 = key) = decide (key ∈ members.map Prod.fst) := by
    rw [Bool.eq_iff_iff, decide_eq_true_iff, ← List.mem_eraseDups, ← map_fst_lastWins, List.mem_map]
    simp
  rw [deliver, Progress.run, lastWins_append, hany]
  simp only [decide_eq_true_iff]

theorem run_openedObject (around : List Frame) (key : String) (rest : List Token) :
    (openedObject around).run limit unclosed (.string key :: rest) =
      (awaitingKey [] around).run limit unclosed (.string key :: rest) := by
  rw [run_cons, run_cons]
  rfl

theorem run_string (members : List (String × Value)) (key : String) (around : List Frame)
    (rest : List Token) :
    (awaitingKey members around).run limit unclosed (.string key :: rest) =
      (awaitingColon members key around).run limit unclosed rest := by
  rw [run_cons]
  exact Run.after_nil _

theorem run_colon (members : List (String × Value)) (key : String) (around : List Frame)
    (rest : List Token) :
    (awaitingColon members key around).run limit unclosed (.colon :: rest) =
      (awaitingValue (.object members key :: around)).run limit unclosed rest := by
  rw [run_cons]
  exact Run.after_nil _

theorem run_comma_member (members : List (String × Value)) (around : List Frame)
    (rest : List Token) :
    (afterMember members around).run limit unclosed (.comma :: rest) =
      (awaitingKey members around).run limit unclosed rest := by
  rw [run_cons]
  exact Run.after_nil _

theorem run_comma_element (elements : List Value) (around : List Frame) (rest : List Token) :
    (afterElement elements around).run limit unclosed (.comma :: rest) =
      (awaitingValue (.array elements :: around)).run limit unclosed rest := by
  rw [run_cons]
  exact Run.after_nil _

/-- A member and the rest of its object. -/
theorem run_member (done : List (String × Value)) {t : Tree} {more : List (String × Tree)}
    {key : String} {around : List Frame} {rest : List Token}
    (ht : (awaitingValue (.object (lastWins done) key :: around)).run limit unclosed
        (t.tokens ++ (Tree.moreMembers more ++ rest)) =
      Run.after t.repeats ((deliver t.value (.object (lastWins done) key :: around)).run
        limit unclosed (Tree.moreMembers more ++ rest)))
    (hmore : (afterMember (lastWins (done ++ [(key, t.value)])) around).run limit unclosed
        (Tree.moreMembers more ++ rest) =
      Run.after (Tree.memberRepeats ((done ++ [(key, t.value)]).map Prod.fst) more)
        ((deliver (.object (lastWins (done ++ [(key, t.value)] ++ Tree.memberValues more)))
          around).run limit unclosed rest)) :
    (awaitingKey (lastWins done) around).run limit unclosed
        (.string key :: .colon :: (t.tokens ++ Tree.moreMembers more) ++ rest) =
      Run.after (Tree.memberRepeats (done.map Prod.fst) ((key, t) :: more))
        ((deliver (.object (lastWins (done ++ Tree.memberValues ((key, t) :: more)))) around).run
          limit unclosed rest) := by
  rw [List.cons_append, List.cons_append, run_string, run_colon, List.append_assoc, ht,
    run_deliver_member, hmore, Run.after_after, Run.after_after, Tree.memberRepeats,
    Tree.memberValues, List.map_append, List.append_assoc done]
  rfl

/-- An element and the rest of its array. -/
theorem run_element (done : List Value) {t : Tree} {more : List Tree} {around : List Frame}
    {rest : List Token}
    (ht : (awaitingValue (.array done :: around)).run limit unclosed
        (t.tokens ++ (Tree.moreElements more ++ rest)) =
      Run.after t.repeats ((deliver t.value (.array done :: around)).run
        limit unclosed (Tree.moreElements more ++ rest)))
    (hmore : (afterElement (t.value :: done) around).run limit unclosed
        (Tree.moreElements more ++ rest) =
      Run.after (Tree.elementRepeats more)
        ((deliver (.array ((t.value :: done).reverse ++ Tree.elementValues more)) around).run
          limit unclosed rest)) :
    (awaitingValue (.array done :: around)).run limit unclosed
        (t.tokens ++ Tree.moreElements more ++ rest) =
      Run.after (Tree.elementRepeats (t :: more))
        ((deliver (.array (done.reverse ++ Tree.elementValues (t :: more))) around).run
          limit unclosed rest) := by
  rw [List.append_assoc, ht, run_deliver_element, hmore, Run.after_after, Tree.elementRepeats,
    Tree.elementValues, List.reverse_cons, List.append_assoc done.reverse]
  rfl

mutual

/-- The tokens of a tree are read as what the tree denotes. -/
theorem run_tokens : ∀ (t : Tree) (around : List Frame) (rest : List Token),
    t.Fits limit (unclosed + around.length) →
    (awaitingValue around).run limit unclosed (t.tokens ++ rest) =
      Run.after t.repeats ((deliver t.value around).run limit unclosed rest)
  | .null, _, _, _ | .boolean _, _, _, _ | .string _, _, _, _ => by
    rw [Tree.tokens, List.singleton_append, run_cons, Tree.repeats, Run.after_nil]
    · rfl
    all_goals simp
  | .number literal, around, rest, h => by
    have hdenotes : (Value.ofNumberText? literal).isSome := h.denotes _ List.mem_cons_self
    obtain ⟨v, hv⟩ := Option.isSome_iff_exists.mp hdenotes
    have hstep : (awaitingValue around).step limit unclosed (.number literal) =
        deliver v around := by
      rw [step, beginValue, hv]
    rw [Tree.tokens, List.singleton_append, run_cons, hstep, Tree.value, hv]
    exact (Run.after_nil _).symm
  | .object [], around, rest, h => by
    have hlimit := (Tree.fits_object_iff.mp h).1
    rw [Tree.tokens, List.cons_append, run_cons, step, beginValue, run_enter _ _ hlimit,
      List.singleton_append, run_cons]
    exact (Run.after_nil _).symm
  | .object ((key, t) :: more), around, rest, h => by
    obtain ⟨hlimit, hmembers⟩ := Tree.fits_object_iff.mp h
    obtain ⟨ht, hmore⟩ := List.forall_mem_cons.mp hmembers
    have hmember := run_member [] (run_tokens t (.object [] key :: around)
      (Tree.moreMembers more ++ rest) ht) (run_moreMembers more [(key, t.value)] around rest hmore)
    rw [Tree.tokens, List.cons_append, run_cons, step, beginValue, run_enter _ _ hlimit,
      List.cons_append, run_openedObject]
    exact hmember
  | .array [], around, rest, h => by
    have hlimit := (Tree.fits_array_iff.mp h).1
    rw [Tree.tokens, List.cons_append, run_cons, step, beginValue, run_enter _ _ hlimit,
      List.singleton_append, run_cons]
    exact (Run.after_nil _).symm
  | .array (t :: more), around, rest, h => by
    obtain ⟨hlimit, helements⟩ := Tree.fits_array_iff.mp h
    obtain ⟨ht, hmore⟩ := List.forall_mem_cons.mp helements
    have helement := run_element [] (run_tokens t (.array [] :: around)
      (Tree.moreElements more ++ rest) ht) (run_moreElements more [t.value] around rest hmore)
    obtain ⟨token, others, htokens, hstarts⟩ := t.exists_tokens_eq_cons
    have hopen : token ≠ .rightBracket := by
      rintro rfl
      contradiction
    rw [Tree.tokens, List.cons_append, run_cons, step, beginValue, run_enter _ _ hlimit]
    rw [htokens] at helement ⊢
    exact (run_openedArray around hopen _).trans helement

/-- The rest of an object after the members `done`. -/
theorem run_moreMembers : ∀ (more : List (String × Tree)) (done : List (String × Value))
    (around : List Frame) (rest : List Token),
    (∀ m ∈ more, m.2.Fits limit (unclosed + around.length + 1)) →
    (afterMember (lastWins done) around).run limit unclosed (Tree.moreMembers more ++ rest) =
      Run.after (Tree.memberRepeats (done.map Prod.fst) more)
        ((deliver (.object (lastWins (done ++ Tree.memberValues more))) around).run
          limit unclosed rest)
  | [], done, around, rest, _ => by
    rw [Tree.moreMembers, List.singleton_append, run_cons, Tree.memberValues, List.append_nil]
    exact (Run.after_nil _).symm
  | (key, t) :: more, done, around, rest, h => by
    obtain ⟨ht, hmore⟩ := List.forall_mem_cons.mp h
    rw [Tree.moreMembers, List.cons_append, run_comma_member]
    exact run_member done (run_tokens t (.object (lastWins done) key :: around) _ ht)
      (run_moreMembers more _ around rest hmore)

/-- The rest of an array after the elements `done`, which are given last first. -/
theorem run_moreElements : ∀ (more : List Tree) (done : List Value) (around : List Frame)
    (rest : List Token),
    (∀ t ∈ more, t.Fits limit (unclosed + around.length + 1)) →
    (afterElement done around).run limit unclosed (Tree.moreElements more ++ rest) =
      Run.after (Tree.elementRepeats more)
        ((deliver (.array (done.reverse ++ Tree.elementValues more)) around).run
          limit unclosed rest)
  | [], done, around, rest, _ => by
    rw [Tree.moreElements, List.singleton_append, run_cons, Tree.elementValues, List.append_nil]
    exact (Run.after_nil _).symm
  | t :: more, done, around, rest, h => by
    obtain ⟨ht, hmore⟩ := List.forall_mem_cons.mp h
    rw [Tree.moreElements, List.cons_append, run_comma_element]
    exact run_element done (run_tokens t (.array done :: around) _ ht)
      (run_moreElements more _ around rest hmore)

end

/-- What tokens that complete a document begin with: the part of a tree that the document still
lacks, and that part fits. -/
def Lacks (limit unclosed : Nat) : Building → List Token → Prop
  | awaitingValue around, tokens =>
    ∃ (t : Tree) (rest : List Token), tokens = t.tokens ++ rest ∧
      t.Fits limit (unclosed + around.length)
  | openedArray around, tokens =>
    ∃ (elements : List Tree) (rest : List Token),
      .leftBracket :: tokens = (Tree.array elements).tokens ++ rest ∧
      ∀ t ∈ elements, t.Fits limit (unclosed + around.length + 1)
  | openedObject around, tokens =>
    ∃ (members : List (String × Tree)) (rest : List Token),
      .leftBrace :: tokens = (Tree.object members).tokens ++ rest ∧
      ∀ m ∈ members, m.2.Fits limit (unclosed + around.length + 1)
  | awaitingKey _ around, tokens =>
    ∃ (m : String × Tree) (more : List (String × Tree)) (rest : List Token),
      .comma :: tokens = Tree.moreMembers (m :: more) ++ rest ∧
      ∀ m' ∈ m :: more, m'.2.Fits limit (unclosed + around.length + 1)
  | awaitingColon _ _ around, tokens =>
    ∃ (t : Tree) (more : List (String × Tree)) (rest : List Token),
      tokens = .colon :: (t.tokens ++ Tree.moreMembers more ++ rest) ∧
      t.Fits limit (unclosed + around.length + 1) ∧
      ∀ m ∈ more, m.2.Fits limit (unclosed + around.length + 1)
  | afterElement _ around, tokens =>
    ∃ (more : List Tree) (rest : List Token), tokens = Tree.moreElements more ++ rest ∧
      ∀ t ∈ more, t.Fits limit (unclosed + around.length + 1)
  | afterMember _ around, tokens =>
    ∃ (more : List (String × Tree)) (rest : List Token), tokens = Tree.moreMembers more ++ rest ∧
      ∀ m ∈ more, m.2.Fits limit (unclosed + around.length + 1)

/-- What is accepted of fewer than `n` tokens has the form that is lacking. -/
def LacksBelow (limit unclosed n : Nat) : Prop :=
  ∀ (tokens : List Token), tokens.length < n → ∀ building : Building,
    (building.run limit unclosed tokens).isSome → building.Lacks limit unclosed tokens

theorem lacks_awaitingValue {around : List Frame} {tokens : List Token}
    (ih : LacksBelow limit unclosed tokens.length)
    (h : ((awaitingValue around).run limit unclosed tokens).isSome) :
    (awaitingValue around).Lacks limit unclosed tokens := by
  cases tokens with
  | nil => contradiction
  | cons token rest =>
    have hscalar : ∀ t : Tree, t.tokens = [token] → t.depth = 0 → token.denotes →
        (awaitingValue around).Lacks limit unclosed (token :: rest) := by
      intro t htokens hdepth hdenotes
      refine ⟨t, rest, by rw [htokens]; rfl, by omega, ?_⟩
      rw [htokens]
      simpa using hdenotes
    have hlimit : ∀ opened : Building,
        ((enter limit unclosed around opened).run limit unclosed rest).isSome →
        unclosed + around.length + 1 ≤ limit := by
      intro opened hrun
      rw [enter] at hrun
      split at hrun
      · assumption
      · contradiction
    rw [run_cons] at h
    cases token with
    | leftBrace =>
      have hle := hlimit _ h
      rw [step, beginValue, run_enter _ _ hle] at h
      obtain ⟨members, rest', heq, hmembers⟩ := ih rest (Nat.lt_succ_self _) _ h
      exact ⟨.object members, rest', heq, Tree.fits_object_iff.mpr ⟨hle, hmembers⟩⟩
    | leftBracket =>
      have hle := hlimit _ h
      rw [step, beginValue, run_enter _ _ hle] at h
      obtain ⟨elements, rest', heq, helements⟩ := ih rest (Nat.lt_succ_self _) _ h
      exact ⟨.array elements, rest', heq, Tree.fits_array_iff.mpr ⟨hle, helements⟩⟩
    | null => exact hscalar .null rfl rfl rfl
    | boolean b => exact hscalar (.boolean b) rfl rfl rfl
    | string text => exact hscalar (.string text) rfl rfl rfl
    | number literal =>
      refine hscalar (.number literal) rfl rfl ?_
      rw [step, beginValue] at h
      rw [Token.denotes]
      cases hv : Value.ofNumberText? literal with
      | some v => rfl
      | none =>
        rw [hv] at h
        contradiction
    | _ => contradiction

/-- The value of a member and the rest of its object. -/
theorem lacks_member {members : List (String × Value)} {key : String} {around : List Frame}
    {tokens : List Token} (ih : LacksBelow limit unclosed (tokens.length + 1))
    (h : ((awaitingValue (.object members key :: around)).run limit unclosed tokens).isSome) :
    ∃ (t : Tree) (more : List (String × Tree)) (rest : List Token),
      tokens = t.tokens ++ Tree.moreMembers more ++ rest ∧
      t.Fits limit (unclosed + around.length + 1) ∧
      ∀ m ∈ more, m.2.Fits limit (unclosed + around.length + 1) := by
  obtain ⟨t, rest, rfl, ht⟩ := ih tokens (Nat.lt_succ_self _) _ h
  rw [run_tokens t _ rest ht, Run.isSome_after] at h
  have hmore : (afterMember (Value.setMember key t.value members) around).run limit unclosed rest
      |>.isSome := by
    rw [deliver, Progress.run, Run.isSome_after] at h
    exact h
  have hlt : rest.length < (t.tokens ++ rest).length + 1 := by
    rw [List.length_append]
    omega
  obtain ⟨more, rest', rfl, hfits⟩ := ih rest hlt _ hmore
  exact ⟨t, more, rest', by rw [List.append_assoc], ht, hfits⟩

/-- A member from its key on. -/
theorem lacks_key {members : List (String × Value)} {key : String} {around : List Frame}
    {tokens : List Token} (ih : LacksBelow limit unclosed (tokens.length + 1))
    (h : ((awaitingKey members around).run limit unclosed (.string key :: tokens)).isSome) :
    (awaitingColon members key around).Lacks limit unclosed tokens := by
  rw [run_string] at h
  exact ih tokens (Nat.lt_succ_self _) _ h

/-- An element and the rest of its array. -/
theorem lacks_element {elements : List Value} {around : List Frame} {tokens : List Token}
    (ih : LacksBelow limit unclosed tokens.length)
    (h : ((awaitingValue (.array elements :: around)).run limit unclosed tokens).isSome) :
    ∃ (t : Tree) (more : List Tree) (rest : List Token),
      tokens = t.tokens ++ Tree.moreElements more ++ rest ∧
      ∀ t' ∈ t :: more, t'.Fits limit (unclosed + around.length + 1) := by
  obtain ⟨t, rest, rfl, ht⟩ := lacks_awaitingValue ih h
  rw [run_tokens t _ rest ht, Run.isSome_after, run_deliver_element] at h
  have hlt : rest.length < (t.tokens ++ rest).length := by
    obtain ⟨token, more, htokens, -⟩ := t.exists_tokens_eq_cons
    rw [List.length_append, htokens, List.length_cons]
    omega
  obtain ⟨more, rest', rfl, hfits⟩ := ih rest hlt _ h
  exact ⟨t, more, rest', by rw [List.append_assoc], List.forall_mem_cons.mpr ⟨ht, hfits⟩⟩

theorem lacks_of_below (building : Building) {tokens : List Token}
    (ih : LacksBelow limit unclosed tokens.length)
    (h : (building.run limit unclosed tokens).isSome) : building.Lacks limit unclosed tokens := by
  cases tokens with
  | nil => cases building <;> contradiction
  | cons token rest =>
    cases building with
    | awaitingValue around => exact lacks_awaitingValue ih h
    | openedArray around =>
      by_cases hclose : token = .rightBracket
      · subst hclose
        exact ⟨[], rest, rfl, by simp⟩
      · rw [run_openedArray around hclose] at h
        obtain ⟨t, more, rest', heq, hfits⟩ := lacks_element ih h
        exact ⟨t :: more, rest', by rw [heq]; rfl, hfits⟩
    | openedObject around =>
      cases token with
      | rightBrace => exact ⟨[], rest, rfl, by simp⟩
      | string key =>
        rw [run_openedObject] at h
        obtain ⟨t, more, rest', heq, ht, hmore⟩ := lacks_key ih h
        refine ⟨(key, t) :: more, rest', ?_, List.forall_mem_cons.mpr ⟨ht, hmore⟩⟩
        rw [heq]
        rfl
      | _ => contradiction
    | awaitingKey members around =>
      cases token with
      | string key =>
        obtain ⟨t, more, rest', heq, ht, hmore⟩ := lacks_key ih h
        refine ⟨(key, t), more, rest', ?_, List.forall_mem_cons.mpr ⟨ht, hmore⟩⟩
        rw [heq]
        rfl
      | _ => contradiction
    | awaitingColon members key around =>
      cases token with
      | colon =>
        rw [run_colon] at h
        obtain ⟨t, more, rest', heq, ht, hmore⟩ := lacks_member ih h
        exact ⟨t, more, rest', by rw [heq], ht, hmore⟩
      | _ => contradiction
    | afterElement elements around =>
      cases token with
      | rightBracket => exact ⟨[], rest, rfl, by simp⟩
      | comma =>
        rw [run_comma_element] at h
        have hbelow : LacksBelow limit unclosed rest.length := fun tokens' hlt =>
          ih tokens' (Nat.lt_succ_of_lt hlt)
        obtain ⟨t, more, rest', heq, hfits⟩ := lacks_element hbelow h
        exact ⟨t :: more, rest', by rw [heq]; rfl, hfits⟩
      | _ => contradiction
    | afterMember members around =>
      cases token with
      | rightBrace => exact ⟨[], rest, rfl, by simp⟩
      | comma =>
        rw [run_comma_member] at h
        obtain ⟨m, more, rest', heq, hfits⟩ := ih rest (Nat.lt_succ_self _) _ h
        exact ⟨m :: more, rest', heq, hfits⟩
      | _ => contradiction

/-- Tokens that complete a document have the form of what it lacks. -/
theorem lacks_of_run (building : Building) (tokens : List Token)
    (h : (building.run limit unclosed tokens).isSome) : building.Lacks limit unclosed tokens := by
  suffices hall : ∀ n, LacksBelow limit unclosed n from
    hall (tokens.length + 1) tokens (Nat.lt_succ_self _) building h
  intro n
  induction n with
  | zero => exact fun _ hlt => absurd hlt (Nat.not_lt_zero _)
  | succ n ih =>
    intro tokens hlt building h
    exact lacks_of_below building (fun tokens' hlt' => ih tokens' (by omega)) h

end Building

end Exemplar
