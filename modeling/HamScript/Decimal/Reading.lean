/-
# Doubles from text

A decimal is digits, optionally a point with more digits, optionally an exponent.  Reading gives
the nearest double.  A double may also be written in hexadecimal digits with an exponent of two, and
infinity and what is not a number by their words.
-/
import HamScript.Decimal.Nearest
import HamScript.Decimal.Word

namespace HamScript.Decimal

/-- The digits before and after a point, and the exponent that follows them. -/
structure Reading where
  whole : List Char
  fraction : List Char
  exponent : Int
  deriving Repr

namespace Reading

/-- The encoding of the nearest double. -/
def bits (r : Reading) : Nat :=
  nearestBitsOfDecimal (valueOf (r.whole ++ r.fraction)) (r.exponent - r.fraction.length)

/-- An exponent: a sign or none, then digits. -/
def exponent? : List Char → Option Int
  | '+' :: cs => (natural? cs).map Int.ofNat
  | '-' :: cs => (natural? cs).map (fun n => -(n : Int))
  | cs => (natural? cs).map Int.ofNat

/-- Reads a decimal without a sign. -/
def ofChars? (cs : List Char) : Option Reading :=
  let whole := cs.takeWhile Char.isDigit
  let afterWhole := cs.dropWhile Char.isDigit
  let pointed : List Char × List Char :=
    match afterWhole with
    | '.' :: rest => (rest.takeWhile Char.isDigit, rest.dropWhile Char.isDigit)
    | rest => ([], rest)
  if whole.isEmpty && pointed.1.isEmpty then none
  else
    match pointed.2 with
    | [] => some ⟨whole, pointed.1, 0⟩
    | 'e' :: rest | 'E' :: rest => (exponent? rest).map (⟨whole, pointed.1, ·⟩)
    | _ => none

/-- Reads a decimal without a sign, where underscores may separate digits. -/
def ofSeparated? (cs : List Char) : Option Reading :=
  if separatesDigits Char.isDigit false cs then ofChars? (withoutSeparators cs) else none

end Reading

/-! ## In hexadecimal digits -/

/-- The encoding of the double nearest to `coefficient * 2 ^ exponent`. -/
def nearestBitsOfBinary (coefficient : Nat) (exponent : Int) : Nat :=
  if coefficient = 0 then 0
  -- beyond these bounds the answer does not depend on the digits
  else if (Nat.log2 coefficient : Int) + exponent > 1030 then infinityBits
  else if (Nat.log2 coefficient : Int) + exponent < -1080 then 0
  else if 0 ≤ exponent then nearestBits (coefficient * twoTo exponent.toNat) 1
  else nearestBits coefficient (twoTo (-exponent).toNat)

/-- Is it a hexadecimal digit? -/
def isHexDigit (c : Char) : Bool :=
  (digitIn? 16 c).isSome

/-- The encoding of the double that hexadecimal digits write, with a point or none, and with an
exponent of two, which has to be there. -/
def hexBits? (cs : List Char) : Option Nat := do
  let whole := cs.takeWhile isHexDigit
  let pointed : List Char × List Char :=
    match cs.dropWhile isHexDigit with
    | '.' :: rest => (rest.takeWhile isHexDigit, rest.dropWhile isHexDigit)
    | rest => ([], rest)
  let coefficient ← naturalIn? 16 (whole ++ pointed.1)
  match pointed.2 with
  | 'p' :: rest | 'P' :: rest =>
    (Reading.exponent? rest).map fun e =>
      nearestBitsOfBinary coefficient (e - 4 * (pointed.1.length : Int))
  | _ => none

/-! ## Doubles -/

/-- The encoding of the double that a number without a sign writes. -/
def positiveBits? : List Char → Option Nat
  | '0' :: 'x' :: cs | '0' :: 'X' :: cs =>
    if separatesDigits isHexDigit true cs then hexBits? (withoutSeparators cs) else none
  | cs => (Reading.ofSeparated? cs).map Reading.bits

/-- Whether a text is one of the words for infinity, in letters of either case. -/
def isInfinityWord (cs : List Char) : Bool :=
  let small := cs.map Char.toLower
  small == ['i', 'n', 'f'] || small == ['i', 'n', 'f', 'i', 'n', 'i', 't', 'y']

/-- The encoding of what stands for a double without a sign. -/
def magnitudeBits? (cs : List Char) : Option Nat :=
  if isInfinityWord cs then some infinityBits else positiveBits? cs

/-- The double that a text writes, with its sign; `none` for any other text. -/
def double? (cs : List Char) : Option Float :=
  if cs.map Char.toLower = ['n', 'a', 'n'] then some (0 / 0)
  else
    match cs with
    | '-' :: rest => (magnitudeBits? rest).map (doubleOf true)
    | '+' :: rest => (magnitudeBits? rest).map (doubleOf false)
    | rest => (magnitudeBits? rest).map (doubleOf false)

/-- The double of a literal `digits.digits` in ASCII digits, unless it is too large for a double. -/
def literal? (cs : List Char) : Option Float :=
  match Reading.ofChars? cs with
  | none => none
  | some r => if infinityBits ≤ r.bits then none else some (doubleOf false r.bits)

end HamScript.Decimal
