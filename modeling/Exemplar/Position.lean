/-!
# Places in the input

A place is counted three ways: bytes from the start, lines, and bytes within the line.
All three follow from the bytes before it, which is what `Position.advance` says: no
routine of the library sets a line or a column by any other rule.
-/

namespace Exemplar

/-- A place between two bytes of the input. Offsets count from 0, lines and columns from 1. -/
structure Position where
  offset : Nat
  line : Nat
  column : Nat
  deriving DecidableEq

namespace Position

def start : Position := ⟨0, 1, 1⟩

/-- The place after one more byte. A line feed ends its line; every other byte is one column. -/
def after (p : Position) (b : UInt8) : Position :=
  if b = 10 then ⟨p.offset + 1, p.line + 1, 1⟩ else ⟨p.offset + 1, p.line, p.column + 1⟩

def advance (p : Position) (bytes : List UInt8) : Position :=
  bytes.foldl after p

def describe (p : Position) : String :=
  s!"line {p.line}, column {p.column}"

@[simp] theorem advance_nil (p : Position) : p.advance [] = p := rfl

@[simp] theorem advance_cons (p : Position) (b : UInt8) (bs : List UInt8) :
    p.advance (b :: bs) = (p.after b).advance bs := rfl

theorem advance_append (p : Position) (xs ys : List UInt8) :
    p.advance (xs ++ ys) = (p.advance xs).advance ys := by
  simp [advance, List.foldl_append]

end Position

end Exemplar
