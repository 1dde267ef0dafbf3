/-
# The shortest decimal of a double

A positive finite double is `m * 2 ^ q`.  The reals that round to it form an interval around it,
which holds its ends exactly when `m` is even.  `shortest m q` is the decimal with the fewest
digits in that interval; of several with the same number of digits it is the nearest to the double,
and of two equally near the one with the even last digit.
-/
import HamScript.Decimal.Nearest

namespace HamScript.Decimal

/-- The number `coefficient * 10 ^ exponent`. -/
structure Scientific where
  coefficient : Nat
  exponent : Int
  deriving Repr, DecidableEq

/-- A positive double with its interval of rounding, over a common denominator. -/
structure Interval where
  low : Nat
  mid : Nat
  high : Nat
  den : Nat
  closed : Bool
  deriving Repr

/-- The interval of `m * 2 ^ q`.  The gap below a power of two is half the gap above it, unless the
unit is already the least one. -/
def Interval.ofDouble (m : Nat) (q : Int) : Interval :=
  let below := if m = twoTo 52 ∧ leastUnit < q then 1 else 2
  let quarter := q - 2
  let num := if 0 ≤ quarter then twoTo quarter.toNat else 1
  let den := if 0 ≤ quarter then 1 else twoTo (-quarter).toNat
  { low := (4 * m - below) * num, mid := 4 * m * num, high := (4 * m + 2) * num, den,
    closed := decide (m % 2 = 0) }

/-- The exponent of the first decimal digit of `num / den`. -/
def leadingExponent (num den : Nat) : Int :=
  if den ≤ num then (digitCount (num / den) : Int) - 1
  else -(digitCount ((den + num - 1) / num - 1) : Int)

namespace Interval

/-- Is `n * 10 ^ exponent` inside?  A side of the comparison is scaled so that both are whole. -/
def holds (i : Interval) (n : Nat) (exponent : Int) : Bool :=
  let point := if 0 ≤ exponent then n * tenTo exponent.toNat * i.den else n * i.den
  let scale := if 0 ≤ exponent then 1 else tenTo (-exponent).toNat
  if i.closed then decide (i.low * scale ≤ point) && decide (point ≤ i.high * scale)
  else decide (i.low * scale < point) && decide (point < i.high * scale)

/-- The double counted in units of `10 ^ exponent`, as a fraction. -/
def counted (i : Interval) (exponent : Int) : Nat × Nat :=
  if 0 ≤ exponent then (i.mid, i.den * tenTo exponent.toNat)
  else (i.mid * tenTo (-exponent).toNat, i.den)

/-- The decimal with unit `10 ^ exponent` that stands for the double, if one of its two neighbours
on that grid is inside the interval. -/
def onGrid? (i : Interval) (exponent : Int) : Option Scientific :=
  let fraction := i.counted exponent
  let down := fraction.1 / fraction.2
  match i.holds down exponent, i.holds (down + 1) exponent with
  | true, true => some ⟨roundDiv fraction.1 fraction.2, exponent⟩
  | true, false => some ⟨down, exponent⟩
  | false, true => some ⟨down + 1, exponent⟩
  | false, false => none

/-- Tries finer and finer grids, `tries` of them. -/
def firstGrid : (tries : Nat) → Interval → Int → Scientific
  | 0, i, exponent => ⟨(i.counted exponent).1 / (i.counted exponent).2, exponent⟩
  | tries + 1, i, exponent =>
    match i.onGrid? exponent with
    | some d => d
    | none => firstGrid tries i (exponent - 1)

end Interval

/-- Removes the zeros at the end of a coefficient, at most `tries` of them. -/
def Scientific.trim : (tries : Nat) → Scientific → Scientific
  | 0, d => d
  | tries + 1, d =>
    if d.coefficient ≠ 0 ∧ d.coefficient % 10 = 0 then
      trim tries ⟨d.coefficient / 10, d.exponent + 1⟩
    else d

/-- The shortest decimal that reads back as `m * 2 ^ q`.  Seventeen digits always suffice. -/
def shortest (m : Nat) (q : Int) : Scientific :=
  let i := Interval.ofDouble m q
  (i.firstGrid 17 (leadingExponent i.mid i.den)).trim 18

end HamScript.Decimal
