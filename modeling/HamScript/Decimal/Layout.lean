/-
# Doubles as text

A layout says how the digits of a double are set: for which exponents the point is written in its
place, how wide the exponent is otherwise, and which words stand for the values without digits.
-/
import HamScript.Decimal.Shortest

namespace HamScript.Decimal

/-- How doubles are written. -/
structure Layout where
  /-- The least exponent of the first digit that is written without an exponent. -/
  leastPlain : Int
  /-- The least exponent, above the plain ones, that is written out. -/
  leastLarge : Int
  /-- How many digits an exponent has at least. -/
  exponentWidth : Nat
  notANumber : String
  infinity : String
  negativeInfinity : String
  deriving Repr

namespace Layout

/-- A number in at least `width` digits. -/
def padded (width n : Nat) : List Char :=
  let digits := Nat.toDigits 10 n
  List.replicate (width - digits.length) '0' ++ digits

/-- Digits with the point after the first of them and an exponent. -/
def withExponent (l : Layout) (digits : List Char) (exponent : Int) : List Char :=
  let mantissa :=
    match digits with
    | [] => []
    | [d] => [d]
    | d :: rest => d :: '.' :: rest
  mantissa ++ ('e' :: (if exponent < 0 then '-' else '+') :: padded l.exponentWidth exponent.natAbs)

/-- Digits with the point in its place; `exponent` is that of the first digit. -/
def plain (digits : List Char) (exponent : Int) : List Char :=
  if exponent < 0 then
    '0' :: '.' :: (List.replicate ((-exponent).toNat - 1) '0' ++ digits)
  else
    let whole := exponent.toNat + 1
    if digits.length ≤ whole then digits ++ List.replicate (whole - digits.length) '0'
    else digits.take whole ++ '.' :: digits.drop whole

/-- A decimal as text. -/
def decimal (l : Layout) (d : Scientific) : List Char :=
  let digits := Nat.toDigits 10 d.coefficient
  let exponent := d.exponent + (digits.length - 1 : Nat)
  if l.leastPlain ≤ exponent ∧ exponent < l.leastLarge then plain digits exponent
  else l.withExponent digits exponent

/-- The exponent field of an encoding. -/
def exponentField (bits : Nat) : Nat :=
  bits / twoTo 52 % twoTo 11

/-- The fraction field of an encoding. -/
def fractionField (bits : Nat) : Nat :=
  bits % twoTo 52

/-- A double without its sign, given by its encoding. -/
def magnitude (l : Layout) (bits : Nat) : List Char :=
  let e := exponentField bits
  let f := fractionField bits
  if e = 0 ∧ f = 0 then ['0']
  else if e = 0 then l.decimal (shortest f leastUnit)
  else l.decimal (shortest (twoTo 52 + f) ((e : Int) - 1 + leastUnit))

/-- The text of a double. -/
def text (l : Layout) (x : Float) : String :=
  let bits := x.toBits.toNat
  let negative := decide (signBit ≤ bits)
  if exponentField bits = 0x7FF then
    if fractionField bits ≠ 0 then l.notANumber
    else if negative then l.negativeInfinity
    else l.infinity
  else
    let digits := l.magnitude bits
    String.ofList (if negative then '-' :: digits else digits)

end Layout

end HamScript.Decimal
