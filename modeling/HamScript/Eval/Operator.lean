/-
# Operators on values

Operands are plain values: pointers have been followed before.
-/
import HamScript.Eval.Outcome

namespace HamScript

open Source (Span)

namespace Value

/-- Equality of values of one kind that can be compared: numbers, strings and booleans. -/
def equals? : Value → Value → Option Bool
  | number a, number b => some (a.equals b)
  | string a, string b => some (a == b)
  | bool a, bool b => some (a == b)
  | _, _ => none

end Value

namespace Eval

/-- The quotient of two numbers. -/
def divide (a b : Number) (span : Span) : Eval Value :=
  if b.isZero then raise .divisionByZero span
  else
    match a.quotient? b with
    | some q => return .number q
    | none => misuse .zeroDivisor

/-- An operator between two values; the whole stands at `span`. -/
def operate (op : BinaryOp) (left right : Value) (span : Span) : Eval Value :=
  let mismatch : Eval Value := raise (.operandKinds op left.kind right.kind) span
  match op with
  | .equal =>
    match left.equals? right with
    | some b => return .bool b
    | none => mismatch
  | .notEqual =>
    match left.equals? right with
    | some b => return .bool (!b)
    | none => mismatch
  | .add =>
    match left, right with
    | .string a, .string b => return .string (a ++ b)
    | .number a, .number b => return .number (a.add b)
    | _, _ => mismatch
  | .subtract =>
    match left, right with
    | .number a, .number b => return .number (a.subtract b)
    | _, _ => mismatch
  | .multiply =>
    match left, right with
    | .number a, .number b => return .number (a.multiply b)
    | _, _ => mismatch
  | .divide =>
    match left, right with
    | .number a, .number b => divide a b span
    | _, _ => mismatch

/-- The opposite of a value. -/
def negate (v : Value) (span : Span) : Eval Value :=
  match v with
  | .number n => return .number n.negate
  | v => raise (.negatedKind v.kind) span

/-- The truth of a condition that stands at `span`. -/
def truth (guard : Guard) (v : Value) (span : Span) : Eval Bool :=
  match v with
  | .bool b => return b
  | v => raise (.conditionKind guard v.kind) span

end Eval

end HamScript
