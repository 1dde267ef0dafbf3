/-
# Integers of 64 bits as text

An integer is written in decimal, or in another base that its first characters say: `0x`, `0o`,
`0b`, or a zero before more digits, which is octal.  Underscores may separate digits.
-/
import HamScript.Decimal.Digits

namespace HamScript.Decimal

/-- The value of a digit in a base of up to sixteen. -/
def digitIn? (base : Nat) (c : Char) : Option Nat :=
  let value :=
    if c.isDigit then c.toNat - 48
    else if 'a' ≤ c ∧ c ≤ 'f' then c.toNat - 87
    else if 'A' ≤ c ∧ c ≤ 'F' then c.toNat - 55
    else base
  if value < base then some value else none

/-- The number that digits in a base write, at least one of them. -/
def naturalIn? (base : Nat) : List Char → Option Nat
  | [] => none
  | cs => cs.foldlM (fun v c => (digitIn? base c).map (base * v + ·)) 0

/-- The number that a text without a sign writes; how it starts says in which base. -/
def unsigned? : List Char → Option Nat
  | '0' :: 'x' :: cs | '0' :: 'X' :: cs => naturalIn? 16 cs
  | '0' :: 'o' :: cs | '0' :: 'O' :: cs => naturalIn? 8 cs
  | '0' :: 'b' :: cs | '0' :: 'B' :: cs => naturalIn? 2 cs
  | '0' :: c :: cs => naturalIn? 8 (c :: cs)
  | cs => naturalIn? 10 cs

/-- The least and the largest signed word of 64 bits. -/
def minWord : Int := -(twoTo 63 : Nat)

@[inherit_doc minWord]
def maxWord : Int := (twoTo 63 : Nat) - 1

/-- Whether the underscores of a text without a sign stand between digits, or between digits and
the letter of their base. -/
def isSeparated : List Char → Bool
  | '0' :: 'x' :: cs | '0' :: 'X' :: cs => separatesDigits (fun c => (digitIn? 16 c).isSome) true cs
  | '0' :: 'o' :: cs | '0' :: 'O' :: cs => separatesDigits Char.isDigit true cs
  | '0' :: 'b' :: cs | '0' :: 'B' :: cs => separatesDigits Char.isDigit true cs
  | cs => separatesDigits Char.isDigit false cs

/-- The number that a text without a sign writes, where underscores may separate digits. -/
def separated? (cs : List Char) : Option Nat :=
  if isSeparated cs then unsigned? (withoutSeparators cs) else none

/-- The integer that a sign or none and a number write. -/
def signedOf? (magnitude? : List Char → Option Nat) : List Char → Option Int
  | '-' :: rest => (magnitude? rest).map (fun n => -(n : Int))
  | '+' :: rest => (magnitude? rest).map Int.ofNat
  | rest => (magnitude? rest).map Int.ofNat

/-- The integer that a sign or none and a number write, if it fits a signed word. -/
def wordOf? (magnitude? : List Char → Option Nat) (cs : List Char) : Option Int := do
  let n ← signedOf? magnitude? cs
  if minWord ≤ n ∧ n ≤ maxWord then some n else none

/-- A signed integer, if it fits a word. -/
def signedWord? (cs : List Char) : Option Int :=
  wordOf? separated? cs

/-- A signed word, or an unsigned word without a sign. -/
def integerOf? (magnitude? : List Char → Option Nat) (cs : List Char) : Option Int :=
  match wordOf? magnitude? cs with
  | some n => some n
  | none => (magnitude? cs).bind fun n => if n < twoTo 64 then some n else none

/-- An integer: a signed word, or an unsigned word without a sign.  After `0b` there may be a sign
too. -/
def integer? (cs : List Char) : Option Int :=
  match integerOf? unsigned? cs, cs with
  | some n, _ => some n
  | none, '0' :: 'b' :: digits => integerOf? (naturalIn? 2) digits
  | none, _ => none

end HamScript.Decimal
