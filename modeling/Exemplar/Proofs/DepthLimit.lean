import Exemplar.Proofs.Courses

/-!
# What the depth limit does

Under a greater limit an input is read in the same way, up to the first bracket that opens a
container below the smaller limit. Under the smaller limit reading ends there. Which brackets open
containers, and how deep, is counted from the brackets themselves.
-/

namespace Exemplar

/-- A bracket that opens a container, and how many are open from there on, that one included. -/
structure Opening where
  nesting : Nat
  position : Position
  deriving DecidableEq

/-- The containers that some tokens open, where `opened` ones are open before them. -/
def openings (opened : Nat) : List Lexeme → List Opening
  | [] => []
  | lexeme :: more =>
    let later := openings (lexeme.token.nesting opened) more
    if lexeme.token.opens then ⟨opened + 1, lexeme.position⟩ :: later else later

/-- The containers that reading an input opens, in the order of their brackets. -/
def openingsRead (bytes : List UInt8) (ending : Ending) (limit : Nat) : List Opening :=
  openings 0
    ((Building.awaitingValue []).course limit 0 (Cursor.start bytes ending).lexemes).taken

namespace Building

variable {limit limit' : Nat} {building next : Building} {token : Token}

/-- What is open stays within the limit. -/
theorem depth_le_of_next? (h : (building.step limit 0 token).next? = some next)
    (hdepth : building.depth ≤ limit) : next.depth ≤ limit := by
  have hnesting := depth_of_next? h
  cases building.effect token with
  | opens around opened hopens hlength hopened hstep =>
    rw [Token.nesting_of_opens hopens] at hnesting
    rw [hstep, enter] at h
    split at h
    · omega
    · contradiction
  | delivers value around hopens =>
    have hle := Token.nesting_le hopens building.depth
    omega
  | proceeds document hopens =>
    have hle := Token.nesting_le hopens building.depth
    omega
  | refuses defect hstep =>
    rw [hstep] at h
    contradiction

/-- The limits differ in the first container beyond the smaller one, and in nothing before it. -/
theorem step_limit (token : Token) (hdepth : building.depth ≤ limit) (h : limit ≤ limit') :
    building.step limit 0 token = building.step limit' 0 token ∨
      (token.opens ∧ building.depth = limit ∧
        building.step limit 0 token = .refused (.nestingTooDeep (limit + 1) limit) ∧
        ∃ next, (building.step limit' 0 token).next? = some next) := by
  obtain rfl | hlt := Nat.eq_or_lt_of_le h
  · exact .inl rfl
  cases building.effect token with
  | opens around opened hopens hlength hopened hstep =>
    have hallowed : 0 + around.length + 1 ≤ limit' := by omega
    rw [hstep, hstep, enter, enter, if_pos hallowed]
    by_cases hle : 0 + around.length + 1 ≤ limit
    · exact .inl (if_pos hle)
    · have hnesting : 0 + around.length + 1 = limit + 1 := by omega
      exact .inr ⟨hopens, by omega, by rw [if_neg hle, hnesting], opened, rfl⟩
  | delivers value around hopens hlength hstep => exact .inl (by rw [hstep, hstep])
  | proceeds document hopens hnext hopen hstep => exact .inl (by rw [hstep, hstep])
  | refuses defect hstep => exact .inl (by rw [hstep, hstep])

/-- A token that is taken below the limit opens nothing beyond it. -/
theorem find?_openings_of_next? {lexeme : Lexeme}
    (h : (building.step limit' 0 lexeme.token).next? = some next) (hdepth : next.depth ≤ limit)
    (more : List Lexeme) :
    (openings building.depth (lexeme :: more)).find? (·.nesting = limit + 1) =
      (openings next.depth more).find? (·.nesting = limit + 1) := by
  have hnesting := depth_of_next? h
  rw [openings, ← hnesting]
  split
  · rename_i hopens
    rw [Token.nesting_of_opens hopens] at hnesting
    exact List.find?_cons_of_neg (by simp; omega)
  · rfl

/-- Two courses of the same tokens, under a limit and under a greater one. -/
theorem course_limit (h : limit ≤ limit') (lexemes : List Lexeme)
    (hdepth : building.depth ≤ limit) :
    match (openings building.depth (building.course limit' 0 lexemes).taken).find?
      (·.nesting = limit + 1) with
    | none => building.course limit 0 lexemes = building.course limit' 0 lexemes
    | some opening =>
      (building.course limit 0 lexemes).outcome =
          .refused (.nestingTooDeep (limit + 1) limit) opening.position ∧
        (building.course limit 0 lexemes).events <+:
          (building.course limit' 0 lexemes).events := by
  -- as long as the two agree, what is open stays within the smaller limit
  induction lexemes generalizing building with
  | nil => rfl
  | cons lexeme more ih =>
    rcases step_limit lexeme.token hdepth h with hsame | ⟨hopens, hdeepest, hcut, next, hnext⟩
    · cases hnext : (building.step limit' 0 lexeme.token).next? with
      | none =>
        obtain ⟨defect, hrefused⟩ := Progress.exists_of_next?_eq_none hnext
        rw [course_of_refused hrefused, course_of_refused (hsame.trans hrefused)]
        rfl
      | some next =>
        have hbelow : (building.step limit 0 lexeme.token).next? = some next := by
          rw [hsame, hnext]
        have hdeep := depth_le_of_next? hbelow hdepth
        have hmore := ih hdeep
        rw [course_of_next? hnext, course_of_next? hbelow, hsame]
        simp only [Course.after, find?_openings_of_next? hnext hdeep]
        split at hmore
        · rw [hmore]
        · exact ⟨hmore.1, (List.prefix_append_right_inj _).mpr hmore.2⟩
    · -- the first container beyond the smaller limit
      rw [course_of_next? hnext, course_of_refused hcut, Course.after, openings, if_pos hopens,
        List.find?_cons_of_pos (by simp [hdeepest])]
      exact ⟨rfl, List.nil_prefix⟩

end Building

/-- A smaller limit only cuts. If reading under the greater one opens no container at the first
level beyond the smaller one, both give the same. Otherwise reading under the smaller one ends with
that level at the first bracket that opens one, and what it has reported until then is reported
first under the greater one. -/
theorem readDocuments_limit (bytes : List UInt8) (ending : Ending) {limit limit' : Nat}
    (h : limit ≤ limit') :
    match (openingsRead bytes ending limit').find? (·.nesting = limit + 1) with
    | none => readDocuments bytes ending limit = readDocuments bytes ending limit'
    | some opening =>
      (readDocuments bytes ending limit).result =
          .error (.malformed (.nestingTooDeep (limit + 1) limit) opening.position) ∧
        (readDocuments bytes ending limit).events <+:
          (readDocuments bytes ending limit').events := by
  have hdepth : (Building.awaitingValue []).depth ≤ limit := Nat.zero_le limit
  have hcourse := Building.course_limit h (Cursor.start bytes ending).lexemes hdepth
  have hopenings : openingsRead bytes ending limit' = openings 0
    ((Building.awaitingValue []).course limit' 0 (Cursor.start bytes ending).lexemes).taken := rfl
  rw [readDocuments_eq_reading, readDocuments_eq_reading, hopenings]
  dsimp only [Building.depth, List.length_nil] at hcourse
  split at hcourse
  · rw [hcourse]
  · exact ⟨Course.result_of_refused hcourse.1 _, hcourse.2⟩

/-- A repeated key is reported before the second container is opened, where a limit of one ends
reading. -/
theorem readDocuments_limit_of_object :
    let bytes := "\x7b\"a\":1,\"a\":2,\"b\":[[]]\x7d".toUTF8.toList
    1 ≤ 3 ∧
      openingsRead bytes .finished 3 =
        [⟨1, ⟨0, 1, 1⟩⟩, ⟨2, ⟨17, 1, 18⟩⟩, ⟨3, ⟨18, 1, 19⟩⟩] ∧
      (readDocuments bytes .finished 1).result =
        .error (.malformed (.nestingTooDeep 2 1) ⟨17, 1, 18⟩) ∧
      (readDocuments bytes .finished 1).events <+: (readDocuments bytes .finished 3).events := by
  have hopenings : openingsRead "\x7b\"a\":1,\"a\":2,\"b\":[[]]\x7d".toUTF8.toList .finished 3 =
      [⟨1, ⟨0, 1, 1⟩⟩, ⟨2, ⟨17, 1, 18⟩⟩, ⟨3, ⟨18, 1, 19⟩⟩] := by cbv
  have hread := readDocuments_limit "\x7b\"a\":1,\"a\":2,\"b\":[[]]\x7d".toUTF8.toList .finished
    (show 1 ≤ 3 by decide)
  rw [hopenings] at hread
  exact ⟨by decide, hopenings, hread⟩

end Exemplar
