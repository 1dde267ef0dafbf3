/-
# Methods

Numbers have `sum` and `mut_sum`, strings have `len`.  `mut_sum` also changes the name it is called
on.
-/
import HamScript.Eval.Outcome

namespace HamScript

open Source (Span)

/-- A method together with the value it belongs to. -/
inductive BoundMethod where
  | sum (receiver : Number)
  | mutSum (receiver : Number)
  | len (receiver : String)

namespace BoundMethod

/-- The method of that name which the value has. -/
def of? : Value → String → Option BoundMethod
  | .number n, "sum" => some (sum n)
  | .number n, "mut_sum" => some (mutSum n)
  | .string s, "len" => some (len s)
  | _, _ => none

/-- Which method it is. -/
def method : BoundMethod → Method
  | sum _ => .sum
  | mutSum _ => .mutSum
  | len _ => .len

end BoundMethod

namespace Eval

/-- A number given to a method; the argument stands at `span`. -/
def numberFor (m : Method) (v : Value) (span : Span) : Eval Number :=
  match v with
  | .number n => return n
  | v => raise (.argumentKind m v.kind) span

/-- Assigns to the name that an expression designates, if it designates one. -/
def storeTo (scope : ScopeId) (target? : Option Ident) (v : Value) : Eval Unit :=
  match target? with
  | some x => store scope x.name v x.span
  | none => return ()

/-- Runs a method with its arguments, each with the span it was evaluated at.  The call stands at
`span`, and its receiver designates `target?`. -/
def runMethod (scope : ScopeId) (target? : Option Ident) (m : BoundMethod)
    (args : List (Value × Span)) (span : Span) : Eval Value :=
  match m, args with
  | .len s, [] => return .number (.int s.length)
  | .sum a, [(v, argSpan)] => do
    let b ← numberFor .sum v argSpan
    return .number (a.add b)
  | .mutSum a, [(v, argSpan)] => do
    let b ← numberFor .mutSum v argSpan
    let updated := .number (a.add b)
    storeTo scope target? updated
    return updated
  | m, args => raise (.methodArity m.method m.method.arity args.length) span

/-- Calls the method `name` of a value. -/
def callMethod (scope : ScopeId) (target? : Option Ident) (receiver : Value) (name : Ident)
    (args : List (Value × Span)) (span : Span) : Eval Value :=
  match BoundMethod.of? receiver name.name with
  | some m => runMethod scope target? m args span
  | none => raise (.noMethod receiver.kind name.name) name.span

end Eval

end HamScript
