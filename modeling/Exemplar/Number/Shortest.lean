import Exemplar.Number.Binary64

/-!
# The shortest decimal of a floating-point number

A finite number stands for all reals that round to it. Its text is a decimal of that interval
with as few digits as possible and, among those, the one nearest to the number. Decimals are
tried grid by grid from the coarsest power of ten; all comparisons are between integers. The
text is positional: no exponent is ever written, and integral numbers have no point.
-/

namespace Exemplar.Binary64

/-- The reals that round to a positive number, in units of a quarter of its last place. -/
structure Interval where
  lower : Nat
  value : Nat
  upper : Nat
  /-- Whether the two ends belong to the interval. -/
  closed : Bool

/-- The rounding interval of a positive finite number. Below a power of two the neighbour is only
half as far away as above it. Ties go to even significands, which therefore own both ends. -/
def interval (x : Binary64) : Interval where
  lower := if x.fraction.val = 0 ∧ 1 < x.exponent.val then 4 * x.significand - 1
    else 4 * x.significand - 2
  value := 4 * x.significand
  upper := 4 * x.significand + 2
  closed := x.significand % 2 = 0

/-- Factors `a` and `b` such that `n` quarters of the last place are `n · a / b` steps of the grid
of multiples of `10 ^ grid`. -/
def gridFactors (scale grid : Int) : Nat × Nat :=
  let binary := scale - 2
  (Nat.pow 2 binary.toNat * Nat.pow 10 (-grid).toNat,
    Nat.pow 2 (-binary).toNat * Nat.pow 10 grid.toNat)

/-- Whether the multiple `n` of the grid step lies in the interval, given the factors. -/
def Interval.contains (i : Interval) (a b n : Nat) : Bool :=
  if i.closed then i.lower * a ≤ n * b && n * b ≤ i.upper * a
  else i.lower * a < n * b && n * b < i.upper * a

/-- The multiple of the grid step that lies in the interval and is nearest to the number, the
larger one of two that are equally near. -/
def Interval.gridPoint? (i : Interval) (a b : Nat) : Option Nat :=
  let below := i.value * a / b
  let above := below + 1
  match i.contains a b below, i.contains a b above with
  | true, true =>
    if i.value * a - below * b < above * b - i.value * a then some below else some above
  | true, false => some below
  | false, true => some above
  | false, false => none

/-- The first grid, from `10 ^ grid` downwards, with a point in the interval, and that point. -/
def Interval.search (i : Interval) (scale : Int) : Nat → Int → Nat × Int
  | 0, grid => (0, grid)
  | steps + 1, grid =>
    let (a, b) := gridFactors scale grid
    match i.gridPoint? a b with
    | some n => (n, grid)
    | none => i.search scale steps (grid - 1)

/-- An exponent of ten such that the number is below that power of ten. -/
def decimalBound (x : Binary64) : Int :=
  let bits := (x.significand.log2 : Int) + 1 + x.scale
  if 0 ≤ bits then bits * 302 / 1000 + 1 else bits * 3 / 10 + 1

/-- The significant digits, as an integer, and the power of ten of the shortest decimal of a
positive finite number. Every finite number lies on the grid of `10 ^ -1074`. -/
def shortest (x : Binary64) : Nat × Int :=
  let bound := decimalBound x
  x.interval.search x.scale (bound + 1075).toNat bound

def positional (digits : Nat) (grid : Int) : List Char :=
  let text := Nat.toDigits 10 digits
  if 0 ≤ grid then text ++ List.replicate grid.toNat '0'
  else
    let places := (-grid).toNat
    let padded := List.replicate (places + 1 - text.length) '0' ++ text
    padded.take (padded.length - places) ++ '.' :: padded.drop (padded.length - places)

def text (x : Binary64) : String :=
  let sign := if x.negative then ['-'] else []
  if x.isFinite then
    if x.significand = 0 then String.ofList (sign ++ ['0'])
    else
      let (digits, grid) := x.shortest
      String.ofList (sign ++ positional digits grid)
  else if x.fraction.val = 0 then String.ofList (sign ++ ['i', 'n', 'f'])
  else "NaN"

end Exemplar.Binary64
