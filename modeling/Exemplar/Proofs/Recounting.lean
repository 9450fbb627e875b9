import Exemplar.Proofs.Continuation

/-!
# Places that are counted in another way

A place in a part of an input may be counted from the beginning of that part or from the beginning
of the whole input. Both counts go on in the same way with every byte, and nothing that is read
depends on a place. So the same tokens are read, and every place that is told is recounted.
-/

namespace Exemplar

/-- Another count of places. Where it is used, it goes on with each byte as the usual one does. -/
structure Recount where
  count : Position → Position
  /-- The places that it is used for. -/
  Covers : Position → Prop
  covers_after : ∀ p b, Covers p → Covers (p.after b)
  count_after : ∀ p b, Covers p → (count p).after b = count (p.after b)

namespace Recount

variable (r : Recount) {p : Position} {c : Cursor}

theorem covers_advance (hp : r.Covers p) (bytes : List UInt8) : r.Covers (p.advance bytes) := by
  induction bytes generalizing p with
  | nil => exact hp
  | cons b bytes ih => exact ih (r.covers_after p b hp)

theorem count_advance (hp : r.Covers p) (bytes : List UInt8) :
    (r.count p).advance bytes = r.count (p.advance bytes) := by
  induction bytes generalizing p with
  | nil => rfl
  | cons b bytes ih =>
    rw [Position.advance_cons, Position.advance_cons, r.count_after p b hp,
      ih (r.covers_after p b hp)]

/-- The cursor on the same rest, with its place recounted. -/
def cursor (c : Cursor) : Cursor :=
  { c with position := r.count c.position }

def error : ReadError → ReadError
  | .malformed defect position => .malformed defect (r.count position)
  | .unreadable reason => .unreadable reason

def lexed : Lexed → Lexed
  | .token lexeme => .token { lexeme with position := r.count lexeme.position }
  | .finished position => .finished (r.count position)
  | .failed error => .failed (r.error error)

theorem covers_lex (hc : r.Covers c.position) : r.Covers c.lex.2.position := by
  obtain ⟨count, -, hskip⟩ := c.exists_skip_of_lex
  rw [hskip]
  exact r.covers_advance hc _

theorem skip_cursor (hc : r.Covers c.position) (count : Nat) :
    (r.cursor c).skip count = r.cursor (c.skip count) := by
  simp only [Cursor.skip, cursor, r.count_advance hc]

theorem lexed_cursor (hc : r.Covers c.position) (outcome : Except Token.Fault Token) :
    (r.cursor c).lexed outcome = r.lexed (c.lexed outcome) := by
  cases outcome with
  | ok token => rfl
  | error fault =>
    cases fault with
    | defect defect offset =>
      rw [Cursor.lexed, Cursor.lexed, Cursor.readError, r.skip_cursor hc]
      rfl
    | unreadable reason => rfl

theorem lexHere_cursor (hc : r.Covers c.position) :
    (r.cursor c).lexHere = (r.lexed c.lexHere.1, r.cursor c.lexHere.2) := by
  have hend : (r.cursor c).ending = c.ending := rfl
  cases hrest : c.rest with
  | nil =>
    have hsame : (r.cursor c).rest = [] := hrest
    rw [Cursor.lexHere, Cursor.lexHere, hrest, hsame, hend]
    cases c.ending <;> rfl
  | cons b bytes =>
    have hsame : (r.cursor c).rest = b :: bytes := hrest
    rw [Cursor.lexHere_of_rest hrest, Cursor.lexHere_of_rest hsame, hend, r.lexed_cursor hc,
      r.skip_cursor hc]

/-- The same token is read, or the same end or error. -/
theorem lex_cursor (hc : r.Covers c.position) :
    (r.cursor c).lex = (r.lexed c.lex.1, r.cursor c.lex.2) := by
  have hblanks : (r.cursor c).skipBlanks = r.cursor c.skipBlanks := r.skip_cursor hc _
  rw [Cursor.lex, hblanks, r.lexHere_cursor (r.covers_advance hc _)]
  rfl

end Recount

end Exemplar
