/-
# Bytes written in base 64

Three bytes are written as four digits of six bits; a last group of one or two bytes is filled up
with `=`.  Line breaks count for nothing.
-/
namespace HamScript.Text.Base64

/-- The value of a digit. -/
def digit? (c : Char) : Option Nat :=
  if c.isUpper then some (c.toNat - 65)
  else if c.isLower then some (c.toNat - 71)
  else if c.isDigit then some (c.toNat + 4)
  else if c = '+' then some 62
  else if c = '/' then some 63
  else none

/-- The number that digits write, the highest first. -/
def group? (cs : List Char) : Option Nat :=
  cs.foldlM (fun v c => (digit? c).map (64 * v + ·)) 0

/-- The bytes of groups of digits. -/
def decodeGroups : List Char → Option (List UInt8)
  | [] => some []
  | [a, b, '=', '='] => (group? [a, b]).map fun n => [UInt8.ofNat (n / 16)]
  | [a, b, c, '='] => (group? [a, b, c]).map fun n => [UInt8.ofNat (n / 1024), UInt8.ofNat (n / 4)]
  | a :: b :: c :: d :: cs => do
    let n ← group? [a, b, c, d]
    let bytes ← decodeGroups cs
    some (UInt8.ofNat (n / 65536) :: UInt8.ofNat (n / 256) :: UInt8.ofNat n :: bytes)
  | _ => none

/-- The bytes that a text writes. -/
def decode (cs : List Char) : Option (List UInt8) :=
  decodeGroups (cs.filter fun c => c ≠ '\n' && c ≠ '\r')

end HamScript.Text.Base64
