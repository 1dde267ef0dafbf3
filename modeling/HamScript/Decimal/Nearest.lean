/-
# The double nearest to a fraction

Doubles have 53 significant binary digits and no unit below 2 ^ -1074.  `nearestBits num den` is the
encoding of the double nearest to `num / den`; a fraction halfway between two doubles goes to the
one whose last binary digit is 0, and one past the largest double becomes infinite.
-/
import HamScript.Decimal.Digits

namespace HamScript.Decimal

/-- `num / den` as a whole number, to the nearest; halves go to the even neighbour. -/
def roundDiv (num den : Nat) : Nat :=
  let quot := num / den
  let rem := num % den
  if 2 * rem > den ∨ (2 * rem = den ∧ quot % 2 = 1) then quot + 1 else quot

/-- The least exponent of a unit. -/
def leastUnit : Int :=
  -1074

/-- The encoding of positive infinity: all ones in the exponent field. -/
def infinityBits : Nat :=
  0x7FF * twoTo 52

/-- `num / den` counted in units of `2 ^ unit`, as a fraction. -/
def scaled (num den : Nat) (unit : Int) : Nat × Nat :=
  if 0 ≤ unit then (num, den * twoTo unit.toNat) else (num * twoTo (-unit).toNat, den)

/-- The exponent of the unit in which `num / den` has 53 binary digits before the point, or the
least one. -/
def unitOf (num den : Nat) : Int :=
  let guess : Int := (Nat.log2 num : Int) - (Nat.log2 den : Int) - 52
  let counted := scaled num den guess
  -- the guess is right or one too high
  let unit := if counted.1 / counted.2 < twoTo 52 then guess - 1 else guess
  max unit leastUnit

/-- The encoding of the double nearest to `num / den`, for a positive `den`. -/
def nearestBits (num den : Nat) : Nat :=
  if num = 0 then 0
  else
    let unit := unitOf num den
    let counted := scaled num den unit
    -- a count of 2 ^ 53 carries into the exponent field by itself
    let bits := (unit - leastUnit).toNat * twoTo 52 + roundDiv counted.1 counted.2
    min bits infinityBits

/-- The encoding of the double nearest to `coefficient * 10 ^ exponent`. -/
def nearestBitsOfDecimal (coefficient : Nat) (exponent : Int) : Nat :=
  if coefficient = 0 then 0
  -- beyond these bounds the answer does not depend on the digits
  else if (digitCount coefficient : Int) + exponent > 310 then infinityBits
  else if (digitCount coefficient : Int) + exponent < -330 then 0
  else if 0 ≤ exponent then nearestBits (coefficient * tenTo exponent.toNat) 1
  else nearestBits coefficient (tenTo (-exponent).toNat)

/-- The sign bit of an encoding. -/
def signBit : Nat :=
  twoTo 63

/-- The double with the encoding `bits` and the given sign. -/
def doubleOf (negative : Bool) (bits : Nat) : Float :=
  Float.ofBits (UInt64.ofNat (if negative then signBit + bits else bits))

/-- The double nearest to an integer. -/
def nearestOfInt (n : Int) : Float :=
  doubleOf (decide (n < 0)) (nearestBits n.natAbs 1)

end HamScript.Decimal
