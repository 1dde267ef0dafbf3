/-
# A count of the active calls

How many calls are active can be known in two ways.  The evaluator hands down how many more may
become active, so that what a call has used up comes back by itself when it is left.  Here it is a
counter in the state: a call looks at it, adds one, and takes one away again when it is left, and
everything that runs gets the counter as the last thing has left it.  With such a counter it is a
question whether it is right afterwards: after a `return` out of a loop, after a stray `break`,
after a fault that has passed through many calls.

    x d w = (y w, d)      begun with the count `d`, the metered computation `x` does what `y` does,
                          and however it ends it leaves the count `d`   (`Keeps`)

This is shown of every form of expression and statement for an `invoke` of which it holds, and then
of `invoke` itself, for all counts at once: `d` calls are active if `left` more may become so and
the two together are the limit (`keeps_invoke`).  The metered `invoke` has no measure of its own to
recur on; a higher bound on its nesting than the calls that may become active is not felt.
-/
import HamScript.Eval.Stmt

namespace HamScript

open Source (Span)

/-- A computation that runs in a world with a count of active calls.  It leaves a count however it
ends. -/
def Metered (α : Type) : Type :=
  Nat → World → Outcome α × Nat

namespace Metered

protected def pure {α : Type} (a : α) : Metered α :=
  fun d w => (.value a w, d)

protected def bind {α β : Type} (x : Metered α) (f : α → Metered β) : Metered β := fun d w =>
  match x d w with
  | (.value a w', d') => f a d' w'
  | (.fault e w', d') => (.fault e w', d')
  | (.misuse m, d') => (.misuse m, d')
  | (.exhausted, d') => (.exhausted, d')

instance : Monad Metered where
  pure := Metered.pure
  bind := Metered.bind

/-- A computation that has nothing to do with calls. -/
def lift {α : Type} (x : Eval α) : Metered α :=
  fun d w => (x w, d)

/-- How many calls are active. -/
def count : Metered Nat :=
  fun d w => (.value d w, d)

/-- Runs with one more call active, and takes it away again however the run ends. -/
def deeper {α : Type} (x : Metered α) : Metered α := fun d w =>
  let (outcome, d') := x (d + 1) w
  (outcome, d' - 1)

/-- How a function is run on its arguments. -/
abbrev Invoke := Closure → List Value → Span → Metered Value

/-! ## The evaluator with a counter -/

def callValue (invoke : Invoke) (callee : Value) (args : List Value) (span : Span) :
    Metered Value :=
  match callee with
  | .function f => invoke f args span
  | .builtin b => lift (Eval.callBuiltin b args span)
  | v => lift (Eval.raise (.notCallable v.kind) span)

mutual

def expr (invoke : Invoke) (scope : ScopeId) : Expr → Metered Value
  | .int n _ => return .number (.int n)
  | .float x _ => return .number (.double x)
  | .string s _ => return .string s
  | .bool b _ => return .bool b
  | .var x => lift (Eval.lookup scope x.name x.span)
  | .ref x span => lift (Eval.reference scope x.name span)
  | .negate operand span => do
    let v ← lift (Eval.plain (← expr invoke scope operand) operand.span)
    lift (Eval.negate v span)
  | .binary op left right span => do
    let l ← lift (Eval.plain (← expr invoke scope left) left.span)
    let r ← lift (Eval.plain (← expr invoke scope right) right.span)
    lift (Eval.operate op l r span)
  | .assign x value _ => do
    let v ← expr invoke scope value
    lift (Eval.store scope x.name v x.span)
    return v
  | .call callee args span => do
    let f ← lift (Eval.plain (← expr invoke scope callee) callee.span)
    let vs ← exprs invoke scope args
    callValue invoke f vs span
  | .method receiver name args span => do
    let v ← lift (Eval.plain (← expr invoke scope receiver) receiver.span)
    let vs ← plainExprs invoke scope args
    lift (Eval.callMethod scope receiver.target? v name vs span)
  | .fn params body _ => return .function ⟨none, params.map Ident.name, body, scope⟩

def exprs (invoke : Invoke) (scope : ScopeId) : List Expr → Metered (List Value)
  | [] => return []
  | e :: es => do
    let v ← expr invoke scope e
    let vs ← exprs invoke scope es
    return v :: vs

def plainExprs (invoke : Invoke) (scope : ScopeId) : List Expr → Metered (List (Value × Span))
  | [] => return []
  | e :: es => do
    let v ← lift (Eval.plain (← expr invoke scope e) e.span)
    let vs ← plainExprs invoke scope es
    return (v, e.span) :: vs

end

def loop (condition : Metered Bool) (body : Metered Flow) : (turns : Nat) → Metered Flow
  | 0 => lift Eval.exhausted
  | turns + 1 => do
    if ← condition then
      match ← body with
      | .next _ => loop condition body turns
      | .broke _ => return .next .unit
      | .returned v => return .returned v
    else return .next .unit

def condition (invoke : Invoke) (scope : ScopeId) (guard : Guard) (e : Expr) : Metered Bool := do
  let v ← lift (Eval.plain (← expr invoke scope e) e.span)
  lift (Eval.truth guard v e.span)

mutual

def stmt (invoke : Invoke) (maxTurns : Nat) (scope : ScopeId) : Stmt → Metered Flow
  | .expr e _ => do
    let v ← expr invoke scope e
    return .next v
  | .letIn x e _ => do
    let v ← expr invoke scope e
    lift (Eval.define scope x.name v)
    return .next .unit
  | .fnDecl x params body _ => do
    lift (Eval.define scope x.name
      (.function ⟨some x.name, params.map Ident.name, body, scope⟩))
    return .next .unit
  | .ifThen c body _ => do
    if ← condition invoke scope .ifThen c then
      let inner ← lift (Eval.newScope scope)
      block invoke maxTurns inner body
    else return .next .unit
  | .whileDo c body _ =>
    loop (condition invoke scope .whileDo c)
      (do
        let inner ← lift (Eval.newScope scope)
        block invoke maxTurns inner body)
      maxTurns
  | .returnUnit _ => return .returned .unit
  | .returnValue e _ => do
    let v ← expr invoke scope e
    return .returned v
  | .breakOut span => return .broke span

def block (invoke : Invoke) (maxTurns : Nat) (scope : ScopeId) : Block → Metered Flow
  | [] => return .next .unit
  | s :: rest => do
    match ← stmt invoke maxTurns scope s with
    | .next _ => block invoke maxTurns scope rest
    | flow => return flow

end

def body (invoke : Invoke) (maxTurns : Nat) (f : Closure) (args : List Value) :
    Metered Value := do
  let scope ← lift (Eval.newScope f.scope)
  lift (Eval.bindParams scope f.params args)
  match ← block invoke maxTurns scope f.body with
  | .returned v => return v
  | .broke span => lift (Eval.raise .strayBreak span)
  | .next _ => return .unit

/-- Runs a function, with a bound on the nesting.  The number of arguments is checked first, and
then the number of active calls. -/
def invoke (limits : Limits) : (bound : Nat) → Invoke
  | 0, _, _, _ => lift Eval.exhausted
  | bound + 1, f, args, span => do
    if args.length = f.params.length then
      if limits.maxDepth ≤ (← count) then
        lift (Eval.raise (.tooManyCalls limits.maxDepth f.shownName) span)
      else
        deeper do
          lift (Eval.noteCall limits f (← count))
          body (invoke limits bound) limits.maxTurns f args
    else lift (Eval.raise (.functionArity f.shownName f.params.length args.length) span)

def programFrom (limits : Limits) (scope : ScopeId) (last : Value) : Program → Metered Value
  | [] => return last
  | s :: rest => do
    match ← stmt (invoke limits (limits.maxDepth + 1)) limits.maxTurns scope s with
    | .next v => programFrom limits scope (if Eval.leavesValue s then v else last) rest
    | .returned v => return v
    | .broke span => lift (Eval.raise .strayBreak span)

def program (limits : Limits) (scope : ScopeId) (p : Program) : Metered Value :=
  programFrom limits scope .unit p

/-! ## The counter is put back -/

/-- Begun with the count `d`, the one does what the other does, and leaves this count. -/
def Keeps {α : Type} (d : Nat) (x : Metered α) (y : Eval α) : Prop :=
  ∀ w, x d w = (y w, d)

section
variable {α β : Type} {d : Nat}

theorem keeps_pure (d : Nat) (a : α) : Keeps d (pure a) (pure a) :=
  fun _ => rfl

theorem keeps_lift (d : Nat) (y : Eval α) : Keeps d (lift y) y :=
  fun _ => rfl

theorem Keeps.bind {x : Metered α} {y : Eval α} {f : α → Metered β} {g : α → Eval β}
    (h : Keeps d x y) (hf : ∀ a, Keeps d (f a) (g a)) : Keeps d (x >>= f) (y >>= g) := by
  intro w
  change Metered.bind x f d w = (Eval.bind y g w, d)
  rw [Metered.bind, Eval.bind, h w]
  cases y w with
  | value a w' => exact hf a w'
  | fault e w' => rfl
  | misuse m => rfl
  | exhausted => rfl

/-- With the call that is added the count is one more, and then it is as before. -/
theorem Keeps.deeper {x : Metered α} {y : Eval α} (h : Keeps (d + 1) x y) :
    Keeps d (deeper x) y := by
  intro w
  rw [Metered.deeper, h w]
  rfl

theorem keeps_ite {c : Prop} [Decidable c] {x x' : Metered α} {y y' : Eval α}
    (h : c → Keeps d x y) (h' : ¬ c → Keeps d x' y') :
    Keeps d (if c then x else x') (if c then y else y') := by
  by_cases hc : c
  · rw [if_pos hc, if_pos hc]
    exact h hc
  · rw [if_neg hc, if_neg hc]
    exact h' hc

theorem keeps_count {x : Nat → Metered α} {y : Eval α} (h : Keeps d (x d) y) :
    Keeps d (count >>= x) y :=
  h

end

section
variable {d : Nat} {inv : Invoke} {inv' : HamScript.Invoke}

/-- A function is run in the same way, and the counter is put back. -/
def KeepsInvoke (d : Nat) (inv : Invoke) (inv' : HamScript.Invoke) : Prop :=
  ∀ f args span, Keeps d (inv f args span) (inv' f args span)

theorem keeps_callValue (h : KeepsInvoke d inv inv') (callee : Value) (args : List Value)
    (span : Span) : Keeps d (callValue inv callee args span)
      (Eval.callValue inv' callee args span) := by
  cases callee with
  | function f => exact h f args span
  | builtin | number | string | bool | unit | pointer => exact keeps_lift d _

mutual

theorem keeps_expr (h : KeepsInvoke d inv inv') (scope : ScopeId) : (e : Expr) →
    Keeps d (expr inv scope e) (Eval.expr inv' scope e)
  | .int n _ => by rw [expr, Eval.expr]; exact keeps_pure d _
  | .float x _ => by rw [expr, Eval.expr]; exact keeps_pure d _
  | .string s _ => by rw [expr, Eval.expr]; exact keeps_pure d _
  | .bool b _ => by rw [expr, Eval.expr]; exact keeps_pure d _
  | .var x => by rw [expr, Eval.expr]; exact keeps_lift d _
  | .ref x span => by rw [expr, Eval.expr]; exact keeps_lift d _
  | .negate operand span => by
      rw [expr, Eval.expr]
      refine (keeps_expr h scope operand).bind fun u => (keeps_lift d _).bind fun v => ?_
      exact keeps_lift d _
  | .binary op left right span => by
      rw [expr, Eval.expr]
      refine (keeps_expr h scope left).bind fun u => (keeps_lift d _).bind fun l => ?_
      refine (keeps_expr h scope right).bind fun u' => (keeps_lift d _).bind fun r => ?_
      exact keeps_lift d _
  | .assign x value span => by
      rw [expr, Eval.expr]
      refine (keeps_expr h scope value).bind fun v => (keeps_lift d _).bind fun _ => ?_
      exact keeps_pure d v
  | .call callee args span => by
      rw [expr, Eval.expr]
      refine (keeps_expr h scope callee).bind fun u => (keeps_lift d _).bind fun f => ?_
      refine (keeps_exprs h scope args).bind fun vs => ?_
      exact keeps_callValue h f vs span
  | .method receiver name args span => by
      rw [expr, Eval.expr]
      refine (keeps_expr h scope receiver).bind fun u => (keeps_lift d _).bind fun v => ?_
      refine (keeps_plainExprs h scope args).bind fun vs => ?_
      exact keeps_lift d _
  | .fn params body span => by rw [expr, Eval.expr]; exact keeps_pure d _

theorem keeps_exprs (h : KeepsInvoke d inv inv') (scope : ScopeId) : (es : List Expr) →
    Keeps d (exprs inv scope es) (Eval.exprs inv' scope es)
  | [] => by rw [exprs, Eval.exprs]; exact keeps_pure d _
  | e :: es => by
      rw [exprs, Eval.exprs]
      refine (keeps_expr h scope e).bind fun v => (keeps_exprs h scope es).bind fun vs => ?_
      exact keeps_pure d _

theorem keeps_plainExprs (h : KeepsInvoke d inv inv') (scope : ScopeId) : (es : List Expr) →
    Keeps d (plainExprs inv scope es) (Eval.plainExprs inv' scope es)
  | [] => by rw [plainExprs, Eval.plainExprs]; exact keeps_pure d _
  | e :: es => by
      rw [plainExprs, Eval.plainExprs]
      refine (keeps_expr h scope e).bind fun u => (keeps_lift d _).bind fun v => ?_
      refine (keeps_plainExprs h scope es).bind fun vs => ?_
      exact keeps_pure d _

end

theorem keeps_condition (h : KeepsInvoke d inv inv') (scope : ScopeId) (guard : Guard)
    (e : Expr) : Keeps d (condition inv scope guard e) (Eval.condition inv' scope guard e) := by
  refine (keeps_expr h scope e).bind fun u => (keeps_lift d _).bind fun v => ?_
  exact keeps_lift d _

theorem keeps_loop {c : Metered Bool} {c' : Eval Bool} {b : Metered Flow} {b' : Eval Flow}
    (hc : Keeps d c c') (hb : Keeps d b b') (turns : Nat) :
    Keeps d (loop c b turns) (Eval.loop c' b' turns) := by
  induction turns with
  | zero => exact keeps_lift d _
  | succ turns ih =>
      refine hc.bind fun go => keeps_ite (fun _ => ?_) (fun _ => keeps_pure d _)
      refine hb.bind fun flow => ?_
      cases flow with
      | next v => exact ih
      | broke span => exact keeps_pure d _
      | returned v => exact keeps_pure d _

mutual

theorem keeps_stmt (h : KeepsInvoke d inv inv') (maxTurns : Nat) : (scope : ScopeId) →
    (s : Stmt) → Keeps d (stmt inv maxTurns scope s) (Eval.stmt inv' maxTurns scope s)
  | scope, .expr e _ => by
      rw [stmt, Eval.stmt]
      exact (keeps_expr h scope e).bind fun v => keeps_pure d _
  | scope, .letIn x e _ => by
      rw [stmt, Eval.stmt]
      refine (keeps_expr h scope e).bind fun v => (keeps_lift d _).bind fun _ => ?_
      exact keeps_pure d _
  | scope, .fnDecl x params body _ => by
      rw [stmt, Eval.stmt]
      exact (keeps_lift d _).bind fun _ => keeps_pure d _
  | scope, .ifThen c body _ => by
      rw [stmt, Eval.stmt]
      refine (keeps_condition h scope .ifThen c).bind fun go => ?_
      refine keeps_ite (fun _ => ?_) (fun _ => keeps_pure d _)
      exact (keeps_lift d _).bind fun inner => keeps_block h maxTurns inner body
  | scope, .whileDo c body _ => by
      rw [stmt, Eval.stmt]
      refine keeps_loop (keeps_condition h scope .whileDo c) ?_ maxTurns
      exact (keeps_lift d _).bind fun inner => keeps_block h maxTurns inner body
  | scope, .returnUnit _ => by rw [stmt, Eval.stmt]; exact keeps_pure d _
  | scope, .returnValue e _ => by
      rw [stmt, Eval.stmt]
      exact (keeps_expr h scope e).bind fun v => keeps_pure d _
  | scope, .breakOut span => by rw [stmt, Eval.stmt]; exact keeps_pure d _

theorem keeps_block (h : KeepsInvoke d inv inv') (maxTurns : Nat) : (scope : ScopeId) →
    (b : Block) → Keeps d (block inv maxTurns scope b) (Eval.block inv' maxTurns scope b)
  | scope, [] => by rw [block, Eval.block]; exact keeps_pure d _
  | scope, s :: rest => by
      rw [block, Eval.block]
      refine (keeps_stmt h maxTurns scope s).bind fun flow => ?_
      cases flow with
      | next v => exact keeps_block h maxTurns scope rest
      | broke span => exact keeps_pure d _
      | returned v => exact keeps_pure d _

end

theorem keeps_body (h : KeepsInvoke d inv inv') (maxTurns : Nat) (f : Closure)
    (args : List Value) : Keeps d (body inv maxTurns f args) (Eval.body inv' maxTurns f args) := by
  refine (keeps_lift d _).bind fun scope => (keeps_lift d _).bind fun _ => ?_
  refine (keeps_block h maxTurns scope f.body).bind fun flow => ?_
  cases flow with
  | next v => exact keeps_pure d _
  | broke span => exact keeps_lift d _
  | returned v => exact keeps_pure d _

end

/-- While `d` calls are active and `left` more may become so, running a function is what it is with
a counter, and the counter is put back. -/
theorem keeps_invoke {limits : Limits} (left : Nat) : ∀ {d bound : Nat},
    d + left = limits.maxDepth → left < bound →
    KeepsInvoke d (invoke limits bound) (Eval.invoke limits left) := by
  induction left with
  | zero =>
      intro d bound hd hbound f args span
      obtain ⟨bound, rfl⟩ := Nat.exists_eq_succ_of_ne_zero (Nat.ne_zero_of_lt hbound)
      rw [invoke, Eval.invoke]
      refine keeps_ite (fun _ => ?_) (fun _ => keeps_lift d _)
      refine keeps_count ?_
      have hle : limits.maxDepth ≤ d := by omega
      rw [if_pos hle]
      exact keeps_lift d _
  | succ left ih =>
      intro d bound hd hbound f args span
      obtain ⟨bound, rfl⟩ := Nat.exists_eq_succ_of_ne_zero (Nat.ne_zero_of_lt hbound)
      rw [invoke, Eval.invoke]
      refine keeps_ite (fun _ => ?_) (fun _ => keeps_lift d _)
      refine keeps_count ?_
      have hlt : ¬ limits.maxDepth ≤ d := by omega
      have hdepth : limits.maxDepth - left = d + 1 := by omega
      rw [if_neg hlt, hdepth]
      -- inside of the call one more is active and one less may become so
      refine Keeps.deeper (keeps_count ((keeps_lift (d + 1) _).bind fun _ => ?_))
      exact keeps_body (ih (by omega) (by omega)) limits.maxTurns f args

theorem keeps_programFrom (limits : Limits) (scope : ScopeId) (last : Value) (p : Program) :
    Keeps 0 (programFrom limits scope last p) (Eval.programFrom limits scope last p) := by
  have hinv : KeepsInvoke 0 (invoke limits (limits.maxDepth + 1))
      (Eval.invoke limits limits.maxDepth) :=
    keeps_invoke limits.maxDepth (Nat.zero_add _) (Nat.lt_succ_self _)
  induction p generalizing last with
  | nil => exact keeps_pure 0 last
  | cons s rest ih =>
      refine (keeps_stmt hinv limits.maxTurns scope s).bind fun flow => ?_
      cases flow with
      | next v => exact ih _
      | broke span => exact keeps_lift 0 _
      | returned v => exact keeps_pure 0 v

/-- Begun without an active call, a program is run as it is without a counter, and leaves none
active. -/
theorem keeps_program (limits : Limits) (scope : ScopeId) (p : Program) :
    Keeps 0 (program limits scope p) (Eval.program limits scope p) :=
  keeps_programFrom limits scope .unit p

end Metered

end HamScript
