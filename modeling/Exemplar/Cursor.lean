import Exemplar.Position

/-!
# Input that is read byte by byte

A cursor stands between the bytes already read and the bytes still to come. The bytes either
end, or the stream breaks off with a reason that every later attempt meets again.
-/

namespace Exemplar

/-- What follows the last byte. -/
inductive Ending where
  | finished
  | broken (reason : String)
  deriving DecidableEq

/-- A place in an input, with what is still to be read. -/
structure Cursor where
  rest : List UInt8
  position : Position
  ending : Ending

namespace Cursor

def start (bytes : List UInt8) (ending : Ending) : Cursor :=
  ⟨bytes, Position.start, ending⟩

def skip (c : Cursor) (count : Nat) : Cursor :=
  { c with rest := c.rest.drop count, position := c.position.advance (c.rest.take count) }

@[simp] theorem rest_skip (c : Cursor) (count : Nat) : (c.skip count).rest = c.rest.drop count :=
  rfl

@[simp] theorem ending_skip (c : Cursor) (count : Nat) : (c.skip count).ending = c.ending := rfl

theorem skip_skip (c : Cursor) (m n : Nat) : (c.skip m).skip n = c.skip (m + n) := by
  simp only [skip, List.drop_drop, ← Position.advance_append]
  rw [← List.take_add]

end Cursor

end Exemplar
