import Exemplar.Number.Binary64

/-!
# Integral floating-point numbers

Doubles are ordered by sign, exponent and fraction, where the two zeros are equal and what is no
number compares with nothing. Truncation clears the bits of the fraction that weigh less than one.
A double is integral if it is in the range of the signed words of 64 bits and truncation leaves it
as it is; as a signed word it then is the integer that it stands for.
-/

namespace Exemplar.Binary64

/-- The largest exponent field belongs to an infinity if the fraction is zero, else to no number. -/
def isNaN (x : Binary64) : Bool := !x.isFinite && x.fraction.val != 0

/-- Exponent and fraction as one number, which grows with the distance from zero. -/
def magnitude (x : Binary64) : Nat := x.exponent.val * leadingBit + x.fraction.val

/-- The place of a double among all that are numbers. -/
def rank (x : Binary64) : Int := if x.negative then -x.magnitude else x.magnitude

/-- How two doubles compare, if both are numbers. -/
def compare? (x y : Binary64) : Option Ordering :=
  if x.isNaN || y.isNaN then none else some (compare x.rank y.rank)

def isBelow (x y : Binary64) : Bool := (x.compare? y).any Ordering.isLT

def isAtMost (x y : Binary64) : Bool := (x.compare? y).any Ordering.isLE

/-- Whether two doubles are the same number. -/
def equals (x y : Binary64) : Bool := (x.compare? y).any Ordering.isEq

def neg (x : Binary64) : Binary64 := { x with negative := !x.negative }

/-- The double without the digits after its point, with the sign kept. -/
def trunc (x : Binary64) : Binary64 :=
  if x.exponent.val < 1023 then zero x.negative
  else
    -- the weight of one in units of the last bit of the fraction
    let one := Nat.pow 2 (1075 - x.exponent.val)
    { x with fraction := ⟨x.fraction.val / one * one, by
        exact Nat.lt_of_le_of_lt (Nat.div_mul_le_self _ _) x.fraction.isLt⟩ }

/-- The digits before the point. -/
def wholePart (x : Binary64) : Nat :=
  x.significand * Nat.pow 2 x.scale.toNat / Nat.pow 2 (-x.scale).toNat

/-- The integer next to a double on the side of zero. -/
def integerPart (x : Binary64) : Int := if x.negative then -x.wholePart else x.wholePart

/-- The double as a signed word of 64 bits: its digits after the point are dropped, what is beyond
the range becomes the end of the range, and what is no number becomes zero. -/
def toInt64 (x : Binary64) : Int :=
  if x.isNaN then 0 else max (-0x8000000000000000) (min x.integerPart 0x7fffffffffffffff)

/-- Two to the power 63, the least number above the range of the signed words of 64 bits. -/
def int64Bound : Binary64 := { zero false with exponent := ⟨1086, by decide⟩ }

/-- Whether a double is in the range of the signed words of 64 bits and has no fractional part. -/
def isIntegral (x : Binary64) : Bool :=
  x.isFinite && int64Bound.neg.isAtMost x && x.isBelow int64Bound && x.equals x.trunc

/-- The signed word that an integral double is. -/
def int64? (x : Binary64) : Option Int :=
  if x.isIntegral then some x.toInt64 else none

end Exemplar.Binary64
