/-!
# Binary floating point in 64 bits

A number is a sign, an exponent field and a fraction field. A finite one denotes
`± significand · 2 ^ scale`, and everything here is computed from that integer pair: reading a
decimal rounds its exact value to the nearest number, ties to the even significand.
-/

namespace Exemplar

/-- The weight of the leading bit of a significand, which is two to the power 52. The fraction
field holds the bits below it. -/
abbrev Binary64.leadingBit : Nat := 0x10000000000000

/-- The fields of a binary64 number. -/
structure Binary64 where
  negative : Bool
  exponent : Fin 2048
  fraction : Fin Binary64.leadingBit
  deriving DecidableEq

namespace Binary64

def ofBits (bits : UInt64) : Binary64 where
  negative := bits.toNat / leadingBit / 2048 = 1
  exponent := ⟨bits.toNat / leadingBit % 2048, Nat.mod_lt _ (by decide)⟩
  fraction := ⟨bits.toNat % leadingBit, Nat.mod_lt _ (by decide)⟩

def toBits (x : Binary64) : UInt64 :=
  UInt64.ofNat ((x.negative.toNat * 2048 + x.exponent.val) * leadingBit + x.fraction.val)

/-- The largest exponent field is kept for infinities and for what is no number. -/
def isFinite (x : Binary64) : Bool := x.exponent.val != 2047

/-- The integer that a finite number multiplies with a power of two. Numbers with exponent field
zero lack the leading bit. -/
def significand (x : Binary64) : Nat :=
  if x.exponent.val = 0 then x.fraction.val else leadingBit + x.fraction.val

def scale (x : Binary64) : Int := max (x.exponent.val : Int) 1 - 1075

/-- The quotient rounded to the nearest integer, ties to the even one. -/
def roundQuotient (num den : Nat) : Nat :=
  let floor := num / den
  let rest := num % den
  if 2 * rest < den ∨ (2 * rest = den ∧ floor % 2 = 0) then floor else floor + 1

/-- A positive quotient over a power of two, as a quotient of natural numbers. -/
def scaled (num den : Nat) (scale : Int) : Nat × Nat :=
  if 0 ≤ scale then (num, den * Nat.pow 2 scale.toNat) else (num * Nat.pow 2 (-scale).toNat, den)

/-- The scale at which a positive quotient has a significand of 53 bits, but not below the scale
of the smallest numbers. -/
def scaleOf (num den : Nat) : Int :=
  let guess : Int := (num.log2 : Int) - (den.log2 : Int) - 52
  let (n, d) := scaled num den guess
  max (if n < leadingBit * d then guess - 1 else guess) (-1074)

/-- The number with a significand of at most 53 bits and a scale, unless it is too large. -/
def ofParts? (negative : Bool) (significand : Nat) (scale : Int) : Option Binary64 :=
  if significand < leadingBit then
    some ⟨negative, 0, Fin.ofNat _ significand⟩
  else if scale + 1075 < 2047 then
    some ⟨negative, Fin.ofNat _ (scale + 1075).toNat, Fin.ofNat _ (significand - leadingBit)⟩
  else none

/-- The number nearest to a positive quotient, unless that is beyond the finite numbers. -/
def nearest? (negative : Bool) (num den : Nat) : Option Binary64 :=
  let scale := scaleOf num den
  let (n, d) := scaled num den scale
  let rounded := roundQuotient n d
  if rounded = 2 * leadingBit then ofParts? negative leadingBit (scale + 1)
  else ofParts? negative rounded scale

def zero (negative : Bool) : Binary64 := ⟨negative, 0, 0⟩

/-- The count of decimal digits of a positive number; zero has none. -/
def digitCount (n : Nat) : Nat :=
  if n = 0 then 0 else (Nat.toDigits 10 n).length

/-- The number nearest to `± coefficient · 10 ^ scale`, unless that is beyond the finite numbers.
Values of at least `10 ^ 400` and below `10 ^ -400` are decided by their size alone. -/
def ofDecimal? (negative : Bool) (coefficient : Nat) (scale : Int) : Option Binary64 :=
  let magnitude : Int := digitCount coefficient + scale
  if coefficient = 0 then some (zero negative)
  else if 400 < magnitude then none
  else if magnitude < -400 then some (zero negative)
  else if 0 ≤ scale then nearest? negative (coefficient * Nat.pow 10 scale.toNat) 1
  else nearest? negative coefficient (Nat.pow 10 (-scale).toNat)

end Binary64

/-- Whether an integer fits into a signed word of 64 bits. -/
def fitsInt64 (n : Int) : Bool := -0x8000000000000000 ≤ n && n < 0x8000000000000000

end Exemplar
