/-
# Running statements

Statements run in a scope and say how to go on.  A `while` loop takes at most as many turns as its
bound allows: this is the only way in which running can fail to come to an end.  Calls are bounded
by the number of calls that may be active at once.
-/
import HamScript.Eval.Expr

namespace HamScript

open Source (Span)

/-- How to go on after a statement. -/
inductive Flow where
  /-- With the next statement; an expression has left its value. -/
  | next (v : Value)
  /-- By leaving the function with a value. -/
  | returned (v : Value)
  /-- By leaving the loop; the `break` stands at the span. -/
  | broke (span : Span)

/-- The bounds a program runs under. -/
structure Limits where
  /-- How many calls of functions may be active at once. -/
  maxDepth : Nat
  /-- How many turns one run of a loop may take. -/
  maxTurns : Nat
  /-- Whether calls are recorded. -/
  traced : Bool

namespace Eval

/-- Repeats the body while the condition holds, for at most `turns` turns. -/
def loop (condition : Eval Bool) (body : Eval Flow) : (turns : Nat) → Eval Flow
  | 0 => exhausted
  | turns + 1 => do
    if ← condition then
      match ← body with
      | .next _ => loop condition body turns
      | .broke _ => return .next .unit
      | .returned v => return .returned v
    else return .next .unit

/-- The truth of a condition in a scope. -/
def condition (invoke : Invoke) (scope : ScopeId) (guard : Guard) (e : Expr) : Eval Bool := do
  let v ← plain (← expr invoke scope e) e.span
  truth guard v e.span

mutual

/-- Runs a statement. -/
def stmt (invoke : Invoke) (maxTurns : Nat) (scope : ScopeId) : Stmt → Eval Flow
  | .expr e _ => do
    let v ← expr invoke scope e
    return .next v
  | .letIn x e _ => do
    let v ← expr invoke scope e
    define scope x.name v
    return .next .unit
  | .fnDecl x params body _ => do
    -- the function sees its own name, so it can call itself
    define scope x.name (.function ⟨some x.name, params.map Ident.name, body, scope⟩)
    return .next .unit
  | .ifThen c body _ => do
    if ← condition invoke scope .ifThen c then
      let inner ← newScope scope
      block invoke maxTurns inner body
    else return .next .unit
  | .whileDo c body _ =>
    loop (condition invoke scope .whileDo c)
      (do
        let inner ← newScope scope
        block invoke maxTurns inner body)
      maxTurns
  | .returnUnit _ => return .returned .unit
  | .returnValue e _ => do
    let v ← expr invoke scope e
    return .returned v
  | .breakOut span => return .broke span

/-- Runs statements one after the other, until one leaves the function or the loop. -/
def block (invoke : Invoke) (maxTurns : Nat) (scope : ScopeId) : Block → Eval Flow
  | [] => return .next .unit
  | s :: rest => do
    match ← stmt invoke maxTurns scope s with
    | .next _ => block invoke maxTurns scope rest
    | flow => return flow

end

/-- Binds parameters to arguments; of two parameters with one name the later counts. -/
def bindParams (scope : ScopeId) (params : List String) (args : List Value) : Eval Unit :=
  update fun h => (params.zip args).foldl (fun h b => h.define scope b.1 (some b.2)) h

/-- Runs the body of a function in a scope of its own. -/
def body (invoke : Invoke) (maxTurns : Nat) (f : Closure) (args : List Value) : Eval Value := do
  let scope ← newScope f.scope
  bindParams scope f.params args
  match ← block invoke maxTurns scope f.body with
  | .returned v => return v
  | .broke span => raise .strayBreak span
  | .next _ => return .unit

/-- Records a call if calls are recorded. -/
def noteCall (limits : Limits) (f : Closure) (depth : Nat) : Eval Unit :=
  if limits.traced then note ⟨f.shownName, depth⟩ else return ()

/-- Runs a function while `left` more calls may become active.  The number of arguments is checked
first. -/
def invoke (limits : Limits) : (left : Nat) → Invoke
  | left, f, args, span =>
    if args.length = f.params.length then
      match left with
      | 0 => raise (.tooManyCalls limits.maxDepth f.shownName) span
      | left + 1 => do
        noteCall limits f (limits.maxDepth - left)
        body (invoke limits left) limits.maxTurns f args
    else raise (.functionArity f.shownName f.params.length args.length) span

/-- Does the statement leave a value for the program? -/
def leavesValue : Stmt → Bool
  | .expr _ _ => true
  | _ => false

/-- Runs the statements of a program in a scope.  Its value is that of the last expression statement
at the top, `last` before the first one; `return` ends it with another value. -/
def programFrom (limits : Limits) (scope : ScopeId) (last : Value) : Program → Eval Value
  | [] => return last
  | s :: rest => do
    match ← stmt (invoke limits limits.maxDepth) limits.maxTurns scope s with
    | .next v => programFrom limits scope (if leavesValue s then v else last) rest
    | .returned v => return v
    | .broke span => raise .strayBreak span

/-- Runs a program in a scope. -/
def program (limits : Limits) (scope : ScopeId) (p : Program) : Eval Value :=
  programFrom limits scope .unit p

end Eval

end HamScript
