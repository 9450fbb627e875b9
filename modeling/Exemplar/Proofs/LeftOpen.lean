import Exemplar.Proofs.FirstError
import Exemplar.Proofs.Resuming

/-!
# What a failed document leaves open

A document that cannot be read to its end has opened containers that it does not close. They are
counted from its brackets. A container that is refused for its depth is one of them; a bracket that
is refused because nothing of its kind can stand there neither opens nor closes anything. The reader
keeps this count and nothing else of the document.
-/

namespace Exemplar

/-- The token closes a container. -/
def Token.closes : Token → Bool
  | rightBrace | rightBracket => true
  | _ => false

namespace ReadError

/-- A container was refused for its depth. -/
def isTooDeep : ReadError → Bool
  | malformed (.nestingTooDeep _ _) _ => true
  | _ => false

/-- The token stands before the place of the error. A failing stream fails behind all tokens. -/
def isBehind (error : ReadError) (lexeme : Lexeme) : Bool :=
  error.position?.all (lexeme.position.offset < ·.offset)

end ReadError

/-- How many containers the tokens open and do not close. -/
def leftOpenBy (lexemes : List Lexeme) : Nat :=
  lexemes.countP (·.token.opens) - lexemes.countP (·.token.closes)

/-- How many containers are opened and not closed if the reader is asked for a document: none
if that is read. -/
def Reader.leavesOpen (reader : Reader) : Nat :=
  match reader.next.1.result with
  | .ok _ => 0
  | .error error =>
    leftOpenBy (reader.cursor.lexemes.takeWhile error.isBehind) + error.isTooDeep.toNat

namespace Building

variable {limit unclosed : Nat} {building next : Building} {token : Token}

/-- A bracket that is taken opens a container, or closes the innermost one. -/
theorem depth_add_closes {events : List Event}
    (h : building.step limit unclosed token = .pending next events) :
    next.depth + (if token.closes then 1 else 0) =
      building.depth + (if token.opens then 1 else 0) := by
  have hpos := depth_pos_of_pending h
  have hdepth : next.depth = token.nesting building.depth := depth_of_next? (by rw [h]; rfl)
  cases token with
  | rightBrace | rightBracket =>
    have hclosed : next.depth = building.depth - 1 := hdepth
    simp only [Token.closes, Token.opens, if_true, Bool.false_eq_true, if_false]
    omega
  | _ => exact hdepth

theorem tooDeep_of_beginValue {around : List Frame} {depth most : Nat}
    (h : beginValue limit unclosed around token = .refused (.nestingTooDeep depth most)) :
    depth = unclosed + around.length + 1 ∧ most = limit := by
  have hdeliver (value : Value) := deliver_ne_refused value around (.nestingTooDeep depth most)
  have henter {opened : Building}
      (h : enter limit unclosed around opened = .refused (.nestingTooDeep depth most)) :
      depth = unclosed + around.length + 1 ∧ most = limit := by
    rw [enter] at h
    split at h
    · contradiction
    · cases h
      exact ⟨rfl, rfl⟩
  cases token with
  | leftBrace => exact henter h
  | leftBracket => exact henter h
  | null => exact absurd h (hdeliver .null)
  | boolean b => exact absurd h (hdeliver (.boolean b))
  | string text => exact absurd h (hdeliver (.string text))
  | number literal =>
    rw [beginValue] at h
    split at h
    · exact absurd h (hdeliver _)
    · cases h
  | _ => cases h

theorem beginMember_ne_tooDeep (members : List (String × Value)) (around : List Frame)
    (token : Token) (depth most : Nat) :
    beginMember members around token ≠ .refused (.nestingTooDeep depth most) := by
  cases token <;> simp [beginMember, Token.startsValue]

/-- A refusal for the depth tells how many containers would have been open, and the limit. -/
theorem tooDeep_of_step {depth most : Nat}
    (h : building.step limit unclosed token = .refused (.nestingTooDeep depth most)) :
    depth = unclosed + building.depth + 1 ∧ most = limit := by
  unfold step at h
  split at h
  · exact absurd h (deliver_ne_refused _ _ _)
  · exact absurd h (deliver_ne_refused _ _ _)
  · exact tooDeep_of_beginValue h
  · exact tooDeep_of_beginValue h
  · exact absurd h (beginMember_ne_tooDeep _ _ _ _ _)
  · exact absurd h (beginMember_ne_tooDeep _ _ _ _ _)
  · contradiction
  · contradiction
  · exact absurd h (deliver_ne_refused _ _ _)
  · contradiction
  · exact absurd h (deliver_ne_refused _ _ _)
  · cases h

end Building

namespace Reader

variable {limit unclosed : Nat} {building : Building} {events : List Event} {cursor : Cursor}
  {error : ReadError}

theorem leftOpen_of_refused {token : Token} {defect : Defect}
    (h : building.step limit unclosed token = .refused defect) (position : Position) :
    leftOpen unclosed building defect =
      unclosed + building.depth + (ReadError.malformed defect position).isTooDeep.toNat := by
  cases defect with
  | nestingTooDeep depth most => exact (Building.tooDeep_of_step h).1
  | _ => rfl

/-- No token is refused for its depth before it is complete. -/
theorem isTooDeep_of_lex {c after : Cursor} (h : c.lex = (.failed error, after)) :
    error.isTooDeep = false := by
  rcases error with ⟨defect, position⟩ | reason
  · have hlexical := Cursor.isLexical_of_lex h
    cases defect with
    | nestingTooDeep depth most => exact absurd rfl hlexical
    | _ => rfl
  · rfl

/-- An error is behind the tokens that were taken before it. -/
theorem isBehind_of_lex {lexeme : Lexeme} {after : Cursor}
    (h : cursor.lex = (.token lexeme, after))
    (herror : ∀ p ∈ error.position?.toList, after.Meets p) :
    error.isBehind lexeme = true := by
  have hlt := (Cursor.offset_of_lex h).2
  rcases error with ⟨defect, position⟩ | reason
  · obtain ⟨count, hcount, hplace⟩ := herror position (List.mem_singleton_self _)
    have hoffset := congrArg Position.offset hplace
    rw [Cursor.offset_skip hcount] at hoffset
    exact decide_eq_true (show lexeme.position.offset < position.offset by omega)
  · rfl

/-- The brackets that are taken before an error tell how many containers are open then. -/
theorem unclosed_of_error
    (h : (continueFrom limit unclosed building events cursor).1.result = .error error) :
    ∃ opened,
      (continueFrom limit unclosed building events cursor).2.unclosed =
          unclosed + opened + error.isTooDeep.toNat ∧
        opened + (cursor.lexemes.takeWhile error.isBehind).countP (·.token.closes) =
          building.depth + (cursor.lexemes.takeWhile error.isBehind).countP (·.token.opens) := by
  fun_induction continueFrom limit unclosed building events cursor with
  | case1 building events cursor lexeme after hlex next own hstep _ ih =>
    have hmeets := meets_of_continueFrom limit unclosed next (events ++ own) after
    rw [Reading.places, h] at hmeets
    obtain ⟨opened, hunclosed, hbalance⟩ := ih h
    have htoken := Building.depth_add_closes hstep
    rw [(Cursor.lexemes_of_token hlex).1,
      List.takeWhile_cons_of_pos (isBehind_of_lex hlex hmeets), List.countP_cons, List.countP_cons]
    exact ⟨opened, hunclosed, by omega⟩
  | case2 => contradiction
  | case3 building events cursor lexeme after hlex defect hstep =>
    obtain rfl := Except.error.inj h
    have hself : (ReadError.malformed defect lexeme.position).isBehind lexeme = false :=
      decide_eq_false (Nat.lt_irrefl _)
    rw [(Cursor.lexemes_of_token hlex).1, List.takeWhile_cons_of_neg (by simp [hself])]
    exact ⟨building.depth, leftOpen_of_refused hstep lexeme.position, rfl⟩
  | case4 building events cursor position after hlex =>
    obtain rfl := Except.error.inj h
    rw [(Cursor.lexemes_of_finished hlex).1]
    exact ⟨building.depth, rfl, rfl⟩
  | case5 building events cursor failure after hlex =>
    obtain rfl := Except.error.inj h
    rw [(Cursor.lexemes_of_failed hlex).1, isTooDeep_of_lex hlex]
    exact ⟨building.depth, rfl, rfl⟩

theorem unclosed_of_ok {result : Option Value}
    (h : (continueFrom limit unclosed building events cursor).1.result = .ok result) :
    (continueFrom limit unclosed building events cursor).2.unclosed = unclosed := by
  rcases hread : continueFrom limit unclosed building events cursor with
    ⟨⟨read, reported⟩, after⟩
  rw [hread] at h
  obtain rfl : read = .ok result := h
  obtain ⟨-, -, -, -, -, hafter, -⟩ := run_of_continueFrom hread
  rw [hafter]

/-- The reader counts the containers that are left open, and keeps its limit. -/
theorem unclosed_next (reader : Reader) :
    reader.next.2.unclosed = reader.unclosed + reader.leavesOpen := by
  rw [leavesOpen]
  rcases hlex : reader.cursor.lex with ⟨lexeme | position | failure, after⟩
  case finished =>
    rw [next_of_lex_finished hlex]
    rfl
  all_goals
    have hne : ∀ position, reader.cursor.lex.1 ≠ .finished position := by simp [hlex]
    rw [next_of_lex_ne hne]
    split
    · rename_i hresult
      exact unclosed_of_ok hresult
    · rename_i error hresult
      obtain ⟨opened, hunclosed, hbalance⟩ := unclosed_of_error hresult
      have hbegun : (Building.awaitingValue []).depth = 0 := rfl
      rw [hunclosed, leftOpenBy]
      omega

end Reader

end Exemplar
