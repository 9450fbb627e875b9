import Exemplar.Token.Scan

/-!
# Reading tokens from an input

Blanks separate tokens and mean nothing. Reading a token gives the token and where it starts,
or the end of the input, or an error; in each case the cursor tells how far the input was read.
-/

namespace Exemplar

/-- A token and the place where it starts. -/
structure Lexeme where
  token : Token
  position : Position
  deriving DecidableEq

/-- What reading one token can give. -/
inductive Lexed where
  | token (lexeme : Lexeme)
  | finished (position : Position)
  | failed (error : ReadError)

/-- The bytes that may stand between tokens: space, tabulator, line feed, carriage return. -/
def isBlank (b : UInt8) : Bool := b = 32 || b = 9 || b = 10 || b = 13

namespace Cursor

def skipBlanks (c : Cursor) : Cursor :=
  c.skip (c.rest.takeWhile isBlank).length

/-- The error that a fault in a token starting here stands for. -/
def readError (c : Cursor) : Token.Fault → ReadError
  | .defect defect offset => .malformed defect (c.skip offset).position
  | .unreadable reason => .unreadable reason

/-- Reads one token from a place that is not blank. -/
def lexHere (c : Cursor) : Lexed × Cursor :=
  match c.rest with
  | [] =>
    match c.ending with
    | .finished => (.finished c.position, c)
    | .broken reason => (.failed (.unreadable reason), c)
  | b :: bytes =>
    let scan := Token.scan c.ending b bytes
    match scan.outcome with
    | .ok token => (.token ⟨token, c.position⟩, c.skip scan.taken)
    | .error fault => (.failed (c.readError fault), c.skip scan.taken)

def lex (c : Cursor) : Lexed × Cursor :=
  c.skipBlanks.lexHere

theorem length_rest_skip_le (c : Cursor) (count : Nat) :
    (c.skip count).rest.length ≤ c.rest.length := by
  simp

theorem length_rest_lexHere_lt {c after : Cursor} {lexeme : Lexeme}
    (h : c.lexHere = (.token lexeme, after)) : after.rest.length < c.rest.length := by
  unfold lexHere at h
  split at h
  · split at h <;> cases h
  · rename_i b bytes hrest
    dsimp only at h
    split at h
    · rename_i token hscan
      have hpos := Token.taken_pos_of_scan_ok hscan
      obtain ⟨-, rfl⟩ := Prod.mk.inj h
      simp only [rest_skip, List.length_drop, hrest, List.length_cons]
      omega
    · cases h

/-- A token takes at least one byte off the input. -/
theorem length_rest_lex_lt {c after : Cursor} {lexeme : Lexeme}
    (h : c.lex = (.token lexeme, after)) : after.rest.length < c.rest.length :=
  Nat.lt_of_lt_of_le (length_rest_lexHere_lt h) (length_rest_skip_le c _)

/-- All tokens up to the end of the input or the first error, each with the place after it, and
how and where reading stopped. -/
def lexAll (c : Cursor) : List (Lexeme × Position) × Lexed × Cursor :=
  match h : c.lex with
  | (.token lexeme, after) =>
    have := length_rest_lex_lt h
    let rest := after.lexAll
    ((lexeme, after.position) :: rest.1, rest.2)
  | stop => ([], stop)
termination_by c.rest.length

end Cursor

end Exemplar
