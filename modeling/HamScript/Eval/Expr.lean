/-
# Evaluating expressions

Expressions are evaluated in a scope.  How a function is run is not decided here: `invoke` is given,
so that evaluation is a recursion on the expression alone.
-/
import HamScript.Eval.Builtin
import HamScript.Eval.Method
import HamScript.Eval.Operator

namespace HamScript

open Source (Span)

/-- How a function is run on its arguments; the call stands at the span. -/
abbrev Invoke := Closure → List Value → Span → Eval Value

namespace Eval

/-- What each of the values refers to. -/
def derefAll (span : Span) : List Value → Eval (List Slot)
  | [] => return []
  | v :: vs => do
    let slot ← derefSlot v span
    let slots ← derefAll span vs
    return slot :: slots

/-- Runs a builtin after checking the number of its arguments. -/
def callBuiltin (b : Builtin) (args : List Value) (span : Span) : Eval Value := do
  match b.arity? with
  | some n =>
    if args.length = n then b.run (← derefAll span args) span
    else raise (.builtinArity b n args.length) span
  | none => b.run (← derefAll span args) span

/-- Calls a value. -/
def callValue (invoke : Invoke) (callee : Value) (args : List Value) (span : Span) : Eval Value :=
  match callee with
  | .function f => invoke f args span
  | .builtin b => callBuiltin b args span
  | v => raise (.notCallable v.kind) span

mutual

/-- The value of an expression in a scope.  Pointers are followed where an operator, a call or a
method needs a plain value, and nowhere else. -/
def expr (invoke : Invoke) (scope : ScopeId) : Expr → Eval Value
  | .int n _ => return .number (.int n)
  | .float x _ => return .number (.double x)
  | .string s _ => return .string s
  | .bool b _ => return .bool b
  | .var x => lookup scope x.name x.span
  | .ref x span => reference scope x.name span
  | .negate operand span => do
    let v ← plain (← expr invoke scope operand) operand.span
    negate v span
  | .binary op left right span => do
    let l ← plain (← expr invoke scope left) left.span
    let r ← plain (← expr invoke scope right) right.span
    operate op l r span
  | .assign x value _ => do
    let v ← expr invoke scope value
    store scope x.name v x.span
    return v
  | .call callee args span => do
    let f ← plain (← expr invoke scope callee) callee.span
    let vs ← exprs invoke scope args
    callValue invoke f vs span
  | .method receiver name args span => do
    let v ← plain (← expr invoke scope receiver) receiver.span
    let vs ← plainExprs invoke scope args
    callMethod scope receiver.target? v name vs span
  | .fn params body _ => return .function ⟨none, params.map Ident.name, body, scope⟩

/-- The values of expressions, from left to right. -/
def exprs (invoke : Invoke) (scope : ScopeId) : List Expr → Eval (List Value)
  | [] => return []
  | e :: es => do
    let v ← expr invoke scope e
    let vs ← exprs invoke scope es
    return v :: vs

/-- The plain values of expressions, from left to right, each with the span of its expression. -/
def plainExprs (invoke : Invoke) (scope : ScopeId) : List Expr → Eval (List (Value × Span))
  | [] => return []
  | e :: es => do
    let v ← plain (← expr invoke scope e) e.span
    let vs ← plainExprs invoke scope es
    return (v, e.span) :: vs

end

end Eval

end HamScript
