import Exemplar.Proofs.Locality
import Exemplar.Proofs.TokenEffects

/-!
# The course of an input

Reading all documents of an input is one run over its tokens. Each token is taken or refused, and
behind the last token of a document another document may begin. What is read follows from that run
and from what stands behind the last token.
-/

namespace Exemplar

/-- Where a run over tokens ends: behind the last of them, or at one that is refused. -/
inductive Outcome where
  | reached (building : Building)
  | refused (defect : Defect) (position : Position)

/-- What a run over tokens comes to. -/
structure Course where
  /-- The tokens before the first one that is refused. -/
  taken : List Lexeme
  documents : List Value
  events : List Event
  outcome : Outcome

namespace Course

/-- The course with one more token before it, and what that token brings. -/
def after (lexeme : Lexeme) (documents : List Value) (events : List Event) (course : Course) :
    Course :=
  ⟨lexeme :: course.taken, documents ++ course.documents, events ++ course.events,
    course.outcome⟩

/-- What is read if the input stops like that behind the tokens. -/
def result (course : Course) (stop : Lexed) : Except ReadError (List Value) :=
  match course.outcome, stop with
  | .refused defect position, _ => .error (.malformed defect position)
  | .reached _, .failed error => .error error
  | .reached (.awaitingValue []), _ => .ok course.documents
  | .reached building, .finished position | .reached building, .token ⟨_, position⟩ =>
    .error (.malformed (.unexpectedEnd building.expected) position)

theorem result_of_refused {course : Course} {defect : Defect} {position : Position}
    (h : course.outcome = .refused defect position) (stop : Lexed) :
    course.result stop = .error (.malformed defect position) := by
  rw [result.eq_def, h]

theorem result_of_reached {course : Course}
    (h : course.outcome = .reached (.awaitingValue [])) (position : Position) :
    course.result (.finished position) = .ok course.documents := by
  rw [result.eq_def, h]

theorem result_of_failed {course : Course} {building : Building}
    (h : course.outcome = .reached building) (error : ReadError) :
    course.result (.failed error) = .error error := by
  rw [result.eq_def, h]

def reading (course : Course) (stop : Lexed) : Reported (Except ReadError (List Value)) :=
  ⟨course.result stop, course.events⟩

theorem result_after (course : Course) (lexeme : Lexeme) (documents : List Value)
    (events : List Event) (stop : Lexed) :
    (course.after lexeme documents events).result stop =
      (course.result stop).map (documents ++ ·) := by
  obtain ⟨taken, others, reported, building | ⟨defect, position⟩⟩ := course
  · rcases building with ⟨_ | ⟨frame, around⟩⟩ | _ | _ | _ | _ | _ | _ <;> cases stop <;> rfl
  · rfl

end Course

namespace Building

/-- The course of the tokens that follow. -/
def course (limit unclosed : Nat) (building : Building) : List Lexeme → Course
  | [] => ⟨[], [], [], .reached building⟩
  | lexeme :: more =>
    match building.step limit unclosed lexeme.token with
    | .pending next events => (next.course limit unclosed more).after lexeme [] events
    | .complete value events =>
      ((awaitingValue []).course limit unclosed more).after lexeme [value] events
    | .refused defect => ⟨[], [], [], .refused defect lexeme.position⟩

end Building

namespace Progress

def documents : Progress → List Value
  | .complete value _ => [value]
  | .pending _ _ | .refused _ => []

def events : Progress → List Event
  | .pending _ events | .complete _ events => events
  | .refused _ => []

end Progress

namespace Building

variable {limit unclosed : Nat} {building next : Building} {lexeme : Lexeme}

theorem course_of_next? (h : (building.step limit unclosed lexeme.token).next? = some next)
    (more : List Lexeme) :
    building.course limit unclosed (lexeme :: more) =
      (next.course limit unclosed more).after lexeme
        (building.step limit unclosed lexeme.token).documents
        (building.step limit unclosed lexeme.token).events := by
  rw [course]
  cases hstep : building.step limit unclosed lexeme.token with
  | refused defect =>
    rw [hstep] at h
    contradiction
  | _ =>
    rw [hstep] at h
    obtain rfl := Option.some.inj h
    rfl

theorem course_of_refused {defect : Defect}
    (h : building.step limit unclosed lexeme.token = .refused defect) (more : List Lexeme) :
    building.course limit unclosed (lexeme :: more) =
      ⟨[], [], [], .refused defect lexeme.position⟩ := by
  rw [course, h]

/-- Tokens that are all taken lead on to those behind them. -/
theorem outcome_append {lexemes : List Lexeme}
    (h : (building.course limit unclosed lexemes).outcome = .reached next) (more : List Lexeme) :
    (building.course limit unclosed (lexemes ++ more)).outcome =
      (next.course limit unclosed more).outcome := by
  induction lexemes generalizing building with
  | nil =>
    obtain rfl := Outcome.reached.inj h
    rfl
  | cons lexeme others ih =>
    rw [List.cons_append]
    cases hnext : (building.step limit unclosed lexeme.token).next? with
    | none =>
      obtain ⟨defect, hrefused⟩ := Progress.exists_of_next?_eq_none hnext
      rw [course_of_refused hrefused] at h
      contradiction
    | some document =>
      rw [course_of_next? hnext] at h ⊢
      exact ih h

/-- The token that is refused, and how far the document has come before it. -/
theorem exists_of_refused {lexemes : List Lexeme} {defect : Defect} {position : Position}
    (h : (building.course limit unclosed lexemes).outcome = .refused defect position) :
    ∃ before lexeme more next, lexemes = before ++ lexeme :: more ∧
      (building.course limit unclosed before).outcome = .reached next ∧
      next.step limit unclosed lexeme.token = .refused defect ∧ position = lexeme.position := by
  induction lexemes generalizing building with
  | nil => contradiction
  | cons lexeme others ih =>
    cases hnext : (building.step limit unclosed lexeme.token).next? with
    | none =>
      obtain ⟨found, hrefused⟩ := Progress.exists_of_next?_eq_none hnext
      rw [course_of_refused hrefused] at h
      obtain ⟨rfl, rfl⟩ := Outcome.refused.inj h
      exact ⟨[], lexeme, others, building, rfl, rfl, hrefused, rfl⟩
    | some document =>
      rw [course_of_next? hnext] at h
      obtain ⟨before, last, more, next, rfl, hbefore, hrefused, hposition⟩ := ih h
      refine ⟨lexeme :: before, last, more, next, rfl, ?_, hrefused, hposition⟩
      rw [course_of_next? hnext]
      exact hbefore

end Building

/-! Reading as a course -/

namespace Cursor

/-- The tokens of an input up to its end or its first error, without their ends. -/
def lexemes (c : Cursor) : List Lexeme :=
  c.lexAll.1.map (·.1)

/-- What stands behind the tokens: the end or the error. -/
def stop (c : Cursor) : Lexed :=
  c.lexAll.2.1

variable {c after : Cursor}

theorem lexemes_of_token {lexeme : Lexeme} (h : c.lex = (.token lexeme, after)) :
    c.lexemes = lexeme :: after.lexemes ∧ c.stop = after.stop := by
  rw [lexemes, stop, lexAll_of_token h]
  exact ⟨rfl, rfl⟩

theorem lexemes_of_finished {position : Position} (h : c.lex = (.finished position, after)) :
    c.lexemes = [] ∧ c.stop = .finished position := by
  rw [lexemes, stop, lexAll_of_stop h (by simp)]
  exact ⟨rfl, rfl⟩

theorem lexemes_of_failed {error : ReadError} (h : c.lex = (.failed error, after)) :
    c.lexemes = [] ∧ c.stop = .failed error := by
  rw [lexemes, stop, lexAll_of_stop h (by simp)]
  exact ⟨rfl, rfl⟩

end Cursor

namespace Reader

variable {limit unclosed : Nat}

/-- The documents from one on that has been read, or in which an error was found. -/
def onwards : Reading × Reader → Reported (Except ReadError (List Value))
  | (⟨.error error, reported⟩, _) => ⟨.error error, reported⟩
  | (⟨.ok none, reported⟩, _) => ⟨.ok [], reported⟩
  | (⟨.ok (some value), reported⟩, after) =>
    ⟨after.readAll.result.map (value :: ·), reported ++ after.readAll.events⟩

theorem readAll_eq_onwards (reader : Reader) : reader.readAll = onwards reader.next := by
  rcases hnext : reader.next with ⟨⟨error | _ | value, reported⟩, after⟩
  · exact readAll_of_error hnext
  · exact readAll_of_none hnext
  · exact readAll_of_some hnext

/-- What is read from a place on follows the course of the tokens there: a document in which
containers are open and those after it, or all documents. -/
structure FollowsCourse (limit unclosed : Nat) (cursor : Cursor) : Prop where
  document : ∀ building events, 0 < building.depth →
    onwards (continueFrom limit unclosed building events cursor) =
      ⟨(building.course limit unclosed cursor.lexemes).result cursor.stop,
        events ++ (building.course limit unclosed cursor.lexemes).events⟩
  documents : readAll ⟨cursor, limit, unclosed⟩ =
    ((Building.awaitingValue []).course limit unclosed cursor.lexemes).reading cursor.stop

/-- One token and what follows it. At the end of the input, a document must have been begun. -/
theorem onwards_continueFrom {cursor : Cursor}
    (hmore : ∀ lexeme after, cursor.lex = (.token lexeme, after) →
      FollowsCourse limit unclosed after)
    (building : Building) (events : List Event)
    (hbegun : 0 < building.depth ∨ ∀ position after, cursor.lex ≠ (.finished position, after)) :
    onwards (continueFrom limit unclosed building events cursor) =
      ⟨(building.course limit unclosed cursor.lexemes).result cursor.stop,
        events ++ (building.course limit unclosed cursor.lexemes).events⟩ := by
  rcases hlex : cursor.lex with ⟨lexeme | position | error, after⟩
  · obtain ⟨hlexemes, hstop⟩ := Cursor.lexemes_of_token hlex
    have hafter := hmore lexeme after hlex
    rw [continueFrom_of_token hlex, hlexemes, hstop, Building.course]
    cases hstep : building.step limit unclosed lexeme.token with
    | pending next own =>
      dsimp only
      rw [hafter.document next (events ++ own) (Building.depth_pos_of_pending hstep),
        Course.result_after, List.append_assoc]
      cases (next.course limit unclosed after.lexemes).result after.stop <;> rfl
    | complete value own =>
      dsimp only [onwards]
      rw [hafter.documents, Course.result_after, List.append_assoc]
      rfl
    | refused defect =>
      dsimp only [onwards]
      rw [List.append_nil]
      rfl
  · obtain ⟨hlexemes, hstop⟩ := Cursor.lexemes_of_finished hlex
    -- a document that has not been begun would not be missed here
    have hopen : 0 < building.depth := hbegun.resolve_right fun h => h position after hlex
    rw [continueFrom_of_finished hlex, hlexemes, hstop, Building.course, onwards,
      List.append_nil]
    rcases building with ⟨_ | ⟨frame, around⟩⟩ | _ | _ | _ | _ | _ | _
    · exact absurd hopen (Nat.lt_irrefl 0)
    all_goals rfl
  · obtain ⟨hlexemes, hstop⟩ := Cursor.lexemes_of_failed hlex
    rw [continueFrom_of_failed hlex, hlexemes, hstop, Building.course, onwards, List.append_nil]
    rfl

theorem followsCourse (limit unclosed : Nat) (cursor : Cursor) :
    FollowsCourse limit unclosed cursor := by
  -- on the bytes that are left, of which every token takes some
  induction hlength : cursor.rest.length using Nat.strong_induction_on generalizing cursor with
  | h n ih =>
    subst hlength
    have hread := @onwards_continueFrom limit unclosed cursor
      fun lexeme after hlex => ih _ (Cursor.length_rest_lex_lt hlex) after rfl
    refine ⟨fun building events hopen => hread building events (.inl hopen), ?_⟩
    rw [readAll_eq_onwards]
    by_cases hend : ∃ position after, cursor.lex = (.finished position, after)
    · obtain ⟨position, after, hlex⟩ := hend
      obtain ⟨hlexemes, hstop⟩ := Cursor.lexemes_of_finished hlex
      rw [next_of_lex_finished hlex, hlexemes, hstop]
      rfl
    · have hne : ∀ position, cursor.lex.1 ≠ .finished position :=
        fun position hlex => hend ⟨position, cursor.lex.2, Prod.ext hlex rfl⟩
      rw [next_of_lex_ne hne, hread (.awaitingValue []) [] (.inr fun position after hlex =>
        hend ⟨position, after, hlex⟩)]
      rfl

end Reader

/-- Reading all documents follows the course of the tokens. -/
theorem readDocuments_eq_reading (bytes : List UInt8) (ending : Ending) (limit : Nat) :
    readDocuments bytes ending limit =
      ((Building.awaitingValue []).course limit 0 (Cursor.start bytes ending).lexemes).reading
        (Cursor.start bytes ending).stop :=
  (Reader.followsCourse limit 0 (Cursor.start bytes ending)).documents

end Exemplar
