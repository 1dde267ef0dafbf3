/-
# Timestamps among plain scalars

A plain scalar is a timestamp if it is a date, or a date and a time of day:

    2001-2-3
    2001-02-03 4:5:6.7
    2001-02-03T04:05:06.789Z
    2001-02-03t04:05:06+01:30

Months, days, hours, minutes and seconds have one or two digits.  Only whether a text is a
timestamp matters here, not which moment it is.
-/
import HamScript.Decimal.Digits

namespace HamScript.Yaml.Timestamp

open Decimal (valueOf)

/-- A number of one or two digits at the front of a text, and what follows it. -/
def short? : List Char → Option (Nat × List Char)
  | a :: b :: rest =>
    if a.isDigit then
      if b.isDigit then some (valueOf [a, b], rest) else some (valueOf [a], b :: rest)
    else none
  | [a] => if a.isDigit then some (valueOf [a], []) else none
  | [] => none

/-- A number of exactly two digits at the front of a text. -/
def pair? : List Char → Option (Nat × List Char)
  | a :: b :: rest => if a.isDigit && b.isDigit then some (valueOf [a, b], rest) else none
  | _ => none

/-- What follows the character `c` at the front of a text. -/
def after? (c : Char) : List Char → Option (List Char)
  | d :: rest => if d = c then some rest else none
  | [] => none

/-- The days of a month. -/
def daysIn (year month : Nat) : Nat :=
  if month = 2 then
    if year % 4 = 0 ∧ (year % 100 ≠ 0 ∨ year % 400 = 0) then 29 else 28
  else if month = 4 ∨ month = 6 ∨ month = 9 ∨ month = 11 then 30
  else 31

/-- What follows a date at the front of a text.  The year has four digits. -/
def afterDate? (cs : List Char) : Option (List Char) := do
  let digits := cs.takeWhile Char.isDigit
  if digits.length ≠ 4 then none
  else
    let (month, cs) ← short? (← after? '-' (cs.drop 4))
    let (day, cs) ← short? (← after? '-' cs)
    if 1 ≤ month ∧ month ≤ 12 ∧ 1 ≤ day ∧ day ≤ daysIn (valueOf digits) month then some cs
    else none

/-- What is left when a fraction of a second is taken away, if there is one. -/
def dropFraction : List Char → List Char
  | p :: d :: rest =>
    if (p = '.' ∨ p = ',') ∧ d.isDigit then rest.dropWhile Char.isDigit else p :: d :: rest
  | cs => cs

/-- What follows a time of day at the front of a text. -/
def afterTime? (cs : List Char) : Option (List Char) := do
  let (hour, cs) ← short? cs
  let (minute, cs) ← short? (← after? ':' cs)
  let (second, cs) ← short? (← after? ':' cs)
  if hour < 24 ∧ minute < 60 ∧ second < 60 then some (dropFraction cs) else none

/-- Whether a text is a zone: `Z`, or hours and minutes before or after it. -/
def isZone : List Char → Bool
  | ['Z'] => true
  | sign :: cs =>
    (sign == '+' || sign == '-') &&
      match (do
        let (hour, cs) ← pair? cs
        let (minute, cs) ← pair? (← after? ':' cs)
        some (hour, minute, cs) : Option (Nat × Nat × List Char)) with
      | some (hour, minute, []) => decide (hour ≤ 24) && decide (minute ≤ 60)
      | _ => false
  | [] => false

/-- Whether a text is a time of day with a zone. -/
def isZonedTime (cs : List Char) : Bool :=
  match afterTime? cs with
  | some rest => isZone rest
  | none => false

/-- Whether a text is a time of day. -/
def isTime (cs : List Char) : Bool :=
  afterTime? cs == some []

/-- Whether a text is a timestamp. -/
def holds (cs : List Char) : Bool :=
  match afterDate? cs with
  | none => false
  | some [] => true
  | some (c :: rest) =>
    if c = 'T' ∨ c = 't' then isZonedTime rest
    else if c = ' ' then isTime (rest.dropWhile (· = ' '))
    else false

end HamScript.Yaml.Timestamp
