/-
# Numbers written in ASCII digits
-/
namespace HamScript.Decimal

/-- Two to the power `n`. -/
abbrev twoTo (n : Nat) : Nat :=
  Nat.pow 2 n

/-- Ten to the power `n`. -/
abbrev tenTo (n : Nat) : Nat :=
  Nat.pow 10 n

/-- The value of an ASCII digit. -/
def digitValue (c : Char) : Nat :=
  c.toNat - 48

/-- The number that a row of ASCII digits writes, the highest first. -/
def valueOf (cs : List Char) : Nat :=
  cs.foldl (fun v c => 10 * v + digitValue c) 0

/-- The number that a text writes: one or more ASCII digits and nothing else. -/
def natural? (cs : List Char) : Option Nat :=
  if !cs.isEmpty && cs.all Char.isDigit then some (valueOf cs) else none

/-- Whether every underscore of a text stands between two digits; `afterDigit` says whether the text
follows one. -/
def separatesDigits (isDigit : Char → Bool) : (afterDigit : Bool) → List Char → Bool
  | _, [] => true
  | afterDigit, c :: cs =>
    if c = '_' then afterDigit && cs.head?.any isDigit && separatesDigits isDigit false cs
    else separatesDigits isDigit (isDigit c) cs

/-- A text without its underscores. -/
def withoutSeparators (cs : List Char) : List Char :=
  cs.filter (· ≠ '_')

/-- How many decimal digits `n` has; zero has one. -/
def digitCount (n : Nat) : Nat :=
  (Nat.toDigits 10 n).length

end HamScript.Decimal
