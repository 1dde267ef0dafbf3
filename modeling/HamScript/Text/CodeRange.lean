/-
# Sets of characters given by ranges of code points

A property of characters that a standard tabulates (being a letter, being a digit) is a list of
closed ranges of code points.  Membership does not depend on the order of the ranges.
-/
namespace HamScript.Text

/-- The code points from `first` to `last`, both included. -/
structure CodeRange where
  first : Nat
  last : Nat
  deriving Repr, DecidableEq

namespace CodeRange

/-- Does the range hold the code point `n`? -/
def holds (r : CodeRange) (n : Nat) : Bool :=
  decide (r.first ≤ n) && decide (n ≤ r.last)

/-- Does one of the ranges hold the character? -/
def anyHolds (rs : List CodeRange) (c : Char) : Bool :=
  rs.any (·.holds c.toNat)

end CodeRange

end HamScript.Text
