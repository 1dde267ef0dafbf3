/-
# Numbers

A number is an integer of any size or a double.  Arithmetic on two integers is exact; as soon as one
operand is a double, the other is rounded to the nearest double first.
-/
import HamScript.Decimal.Layout

namespace HamScript

/-- Doubles are written with the fewest digits that read back.  The point stands in its place when
the first digit is among the six places before the point or the four after it; otherwise there is an
exponent of at least two digits with its sign. -/
def doubleLayout : Decimal.Layout :=
  ⟨-4, 6, 2, "NaN", "+Inf", "-Inf"⟩

/-- A number of the language. -/
inductive Number where
  | int (value : Int)
  | double (value : Float)

namespace Number

/-- Is the number a double? -/
def isDouble : Number → Bool
  | int _ => false
  | double _ => true

/-- The number as a double. -/
def toDouble : Number → Float
  | int n => Decimal.nearestOfInt n
  | double x => x

/-- Is the number zero?  Both zeros among the doubles are. -/
def isZero : Number → Bool
  | int n => n == 0
  | double x => x == 0

/-- An operation on integers and its counterpart on doubles. -/
def combine (ints : Int → Int → Int) (doubles : Float → Float → Float) : Number → Number → Number
  | int a, int b => int (ints a b)
  | a, b => double (doubles a.toDouble b.toDouble)

/-- The sum. -/
def add : Number → Number → Number :=
  combine (· + ·) (· + ·)

/-- The difference. -/
def subtract : Number → Number → Number :=
  combine (· - ·) (· - ·)

/-- The product. -/
def multiply : Number → Number → Number :=
  combine (· * ·) (· * ·)

/-- The quotient; integers are divided toward zero.  There is none of two integers when the divisor
is zero. -/
def quotient? : Number → Number → Option Number
  | int a, int b => if b = 0 then none else some (int (a.tdiv b))
  | a, b => some (double (a.toDouble / b.toDouble))

/-- The opposite number. -/
def negate : Number → Number
  | int n => int (-n)
  | double x => double (-x)

/-- Equality; an integer equals the double it rounds to, and not-a-number equals nothing. -/
def equals : Number → Number → Bool
  | int a, int b => a == b
  | a, b => a.toDouble == b.toDouble

/-- A number as text. -/
def text : Number → String
  | int n => toString n
  | double x => doubleLayout.text x

end Number

end HamScript
