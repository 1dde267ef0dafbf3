/-
# Raising the limits

A program runs under two limits: how many turns a loop may take, and how many calls may be active.
A run under low limits is compared with one under higher limits from the same world.  Either the
runs end in the same way and in the same world, or the first one has been cut off: it has reached
the end of the turns of a loop, or it has stopped with one of the causes `cut`.  In any case
nothing that has been printed is taken back (`Appends`), so the second run has printed at least what
the first one has.

    x ⊑ y at w      x w and y w are the same outcome
                    or x w is exhausted
                    or x w is a fault that may cut off, and y w prints on from there

With no cause to cut off, this is what more turns do (`program_of_le`); with the cause of too many
calls, it is what a higher limit on calls does (`below_program`).
-/
import HamScript.Proofs.Eval.Likeness

namespace HamScript

open Source (Span)

/-! ## What has been printed stays -/

/-- What has been printed in `w` is the beginning of what has been printed in `v`. -/
def World.Extends (w v : World) : Prop :=
  ∃ text, v.output = w.output ++ text

theorem World.Extends.refl (w : World) : w.Extends w :=
  ⟨"", String.append_empty.symm⟩

theorem World.Extends.trans {w v u : World} (h : w.Extends v) (h' : v.Extends u) : w.Extends u := by
  obtain ⟨a, ha⟩ := h
  obtain ⟨b, hb⟩ := h'
  exact ⟨a ++ b, by rw [hb, ha, String.append_assoc]⟩

/-- The world that is left, if one is left, extends `w`. -/
def Outcome.Extends {α : Type} (w : World) : Outcome α → Prop
  | .value _ v => w.Extends v
  | .fault _ v => w.Extends v
  | .misuse _ => True
  | .exhausted => True

theorem Outcome.Extends.of_extends {α : Type} {w v : World} {o : Outcome α} (h : o.Extends v)
    (hv : w.Extends v) : o.Extends w := by
  cases o with
  | value a u => exact hv.trans h
  | fault f u => exact hv.trans h
  | misuse m => trivial
  | exhausted => trivial

/-- The outcome `o` of a computation begun in `w` is that of another one, or it was cut off. -/
inductive Outcome.Below (cut : Cause → Prop) {α : Type} (w : World) :
    Outcome α → Outcome α → Prop
  | same {o : Outcome α} : o.Extends w → Outcome.Below cut w o o
  | exhausted {o : Outcome α} : o.Extends w → Outcome.Below cut w .exhausted o
  | cut {f : RuntimeFault} {v : World} {o : Outcome α} :
      cut f.cause → w.Extends v → o.Extends v → Outcome.Below cut w (.fault f v) o

section
variable {cut : Cause → Prop} {α β : Type} {w v : World}

theorem Outcome.Below.extends_right {o o' : Outcome α} (h : o.Below cut w o') : o'.Extends w := by
  cases h with
  | same ho => exact ho
  | exhausted ho => exact ho
  | cut _ hv ho => exact ho.of_extends hv

theorem Outcome.Below.of_extends {o o' : Outcome α} (h : o.Below cut v o') (hv : w.Extends v) :
    o.Below cut w o' := by
  cases h with
  | same ho => exact .same (ho.of_extends hv)
  | exhausted ho => exact .exhausted (ho.of_extends hv)
  | cut hf hu ho => exact .cut hf (hv.trans hu) ho

end

namespace Eval

/-- The computation takes back nothing that has been printed. -/
def Appends {α : Type} (x : Eval α) : Prop :=
  ∀ w, (x w).Extends w

/-- The computation `y` does what `x` does, unless `x` is cut off. -/
def Below (cut : Cause → Prop) {α : Type} (x y : Eval α) : Prop :=
  ∀ w, (x w).Below cut w (y w)

section
variable {cut : Cause → Prop} {α β : Type}

/-- Run in step with itself, a computation is seen to print only. -/
theorem Agree.appends {A : α → α → Prop} {x : Eval α} (h : Agree .any A x x) : Appends x := by
  intro w
  have hx := h w w w.heap.alike_any
  generalize x w = o, x w = o' at hx
  cases hx with
  | value _ hv =>
      obtain ⟨text, htext, -⟩ := hv.output
      exact ⟨text, htext⟩
  | fault _ hv =>
      obtain ⟨text, htext, -⟩ := hv.output
      exact ⟨text, htext⟩
  | misuse m => trivial
  | exhausted _ => trivial

theorem Appends.below {x : Eval α} (h : Appends x) : Below cut x x :=
  fun w => .same (h w)

theorem Agree.below {A : α → α → Prop} {x : Eval α} (h : Agree .any A x x) : Below cut x x :=
  h.appends.below

theorem Below.appends {x y : Eval α} (h : Below cut x y) : Appends y :=
  fun w => (h w).extends_right

theorem Appends.bind {x : Eval α} {f : α → Eval β} (h : Appends x) (hf : ∀ a, Appends (f a)) :
    Appends (x >>= f) := by
  intro w
  change (Eval.bind x f w).Extends w
  unfold Eval.bind
  have hx := h w
  cases hxw : x w with
  | value a v =>
      rw [hxw] at hx
      exact (hf a v).of_extends hx
  | fault e v => rw [hxw] at hx; exact hx
  | misuse m => trivial
  | exhausted => trivial

theorem Below.bind {x y : Eval α} {f g : α → Eval β} (h : Below cut x y)
    (hf : ∀ a, Below cut (f a) (g a)) : Below cut (x >>= f) (y >>= g) := by
  have hgs : ∀ {v : World} {o : Outcome α}, o.Extends v →
      (Eval.bind (fun _ => o) g v).Extends v := by
    -- whatever comes after an outcome that extends a world extends this world
    intro v o ho
    unfold Eval.bind
    cases o with
    | value a u => exact ((hf a).appends u).of_extends ho
    | fault e u => exact ho
    | misuse m => trivial
    | exhausted => trivial
  intro w
  change (Eval.bind x f w).Below cut w (Eval.bind (fun _ => y w) g w)
  have hxy := h w
  unfold Eval.bind
  generalize x w = o, y w = o' at hxy
  cases hxy with
  | same ho =>
      cases o with
      | value a v => exact (hf a v).of_extends ho
      | fault e v => exact .same ho
      | misuse m => exact .same trivial
      | exhausted => exact .same trivial
  | exhausted ho => exact .exhausted (hgs ho)
  | cut he hv ho => exact .cut he hv (hgs ho)

theorem below_pure (a : α) : Below cut (pure a) (pure a) :=
  fun w => .same (.refl w)

theorem below_raise (cause : Cause) (span : Span) :
    Below cut (raise cause span : Eval α) (raise cause span) :=
  fun w => .same (.refl w)

end

/-! ## Expressions -/

section
variable {cut : Cause → Prop} {inv inv' : Invoke}

def BelowInvoke (cut : Cause → Prop) (inv inv' : Invoke) : Prop :=
  ∀ f args span, Below cut (inv f args span) (inv' f args span)

theorem below_plain (v : Value) (span : Span) : Below cut (plain v span) (plain v span) :=
  (agree_plain v.alike_any trivial).below

theorem below_callValue (hinv : BelowInvoke cut inv inv') (v : Value) (args : List Value)
    (span : Span) : Below cut (callValue inv v args span) (callValue inv' v args span) := by
  cases v with
  | function f => exact hinv f args span
  | builtin b => exact (agree_callBuiltin b (Value.allAlike_any args) trivial).below
  | number | string | bool | unit | pointer => exact below_raise _ _

theorem below_callMethod (scope : ScopeId) (x : Option Ident) (v : Value) (name : Ident)
    (args : List (Value × Span)) (span : Span) :
    Below cut (callMethod scope x v name args span) (callMethod scope x v name args span) := by
  have hident : ∀ y : Ident, y.Alike .any y := fun _ => ⟨rfl, trivial, trivial⟩
  have hx : Option.Rel (Ident.Alike .any) x x := by
    cases x with
    | none => exact .none
    | some y => exact .some (hident y)
  have hargs : List.Forall₂ (ArgAlike .any) args args :=
    List.forall₂_same.mpr fun a _ => ⟨a.1.alike_any, trivial⟩
  exact (agree_callMethod scope hx v.alike_any (hident name) hargs trivial).below

mutual

theorem below_expr (hinv : BelowInvoke cut inv inv') (scope : ScopeId) :
    (e : Expr) → Below cut (expr inv scope e) (expr inv' scope e)
  | .int .. | .float .. | .string .. | .bool .. => below_pure _
  | .var x => (agree_lookup scope trivial trivial).below
  | .ref x span => (agree_reference scope trivial trivial).below
  | .negate e span => by
      rw [expr, expr]
      refine (below_expr hinv scope e).bind fun v => ?_
      refine (below_plain v e.span).bind fun u => ?_
      exact (agree_negate u.alike_any trivial).below
  | .binary op l r span => by
      rw [expr, expr]
      refine (below_expr hinv scope l).bind fun v => ?_
      refine (below_plain v l.span).bind fun a => ?_
      refine (below_expr hinv scope r).bind fun u => ?_
      refine (below_plain u r.span).bind fun b => ?_
      exact (agree_operate op a.alike_any b.alike_any trivial).below
  | .assign x e span => by
      rw [expr, expr]
      refine (below_expr hinv scope e).bind fun v => ?_
      have hstore : Below cut (store scope x.name v x.span) (store scope x.name v x.span) :=
        (agree_store scope trivial v.alike_any trivial).below
      exact hstore.bind fun _ => below_pure v
  | .call c es span => by
      rw [expr, expr]
      refine (below_expr hinv scope c).bind fun v => ?_
      refine (below_plain v c.span).bind fun f => ?_
      refine (below_exprs hinv scope es).bind fun vs => ?_
      exact below_callValue hinv f vs span
  | .method r x es span => by
      rw [expr, expr]
      refine (below_expr hinv scope r).bind fun v => ?_
      refine (below_plain v r.span).bind fun u => ?_
      refine (below_plainExprs hinv scope es).bind fun args => ?_
      exact below_callMethod scope r.target? u x args span
  | .fn .. => by
      rw [expr, expr]
      exact below_pure _

theorem below_exprs (hinv : BelowInvoke cut inv inv') (scope : ScopeId) :
    (es : List Expr) → Below cut (exprs inv scope es) (exprs inv' scope es)
  | [] => below_pure []
  | e :: es => by
      rw [exprs, exprs]
      refine (below_expr hinv scope e).bind fun v => ?_
      exact (below_exprs hinv scope es).bind fun vs => below_pure (v :: vs)

theorem below_plainExprs (hinv : BelowInvoke cut inv inv') (scope : ScopeId) :
    (es : List Expr) → Below cut (plainExprs inv scope es) (plainExprs inv' scope es)
  | [] => below_pure []
  | e :: es => by
      rw [plainExprs, plainExprs]
      refine (below_expr hinv scope e).bind fun v => ?_
      refine (below_plain v e.span).bind fun u => ?_
      exact (below_plainExprs hinv scope es).bind fun vs => below_pure ((u, e.span) :: vs)

end

/-! ## Statements -/

theorem below_condition (hinv : BelowInvoke cut inv inv') (scope : ScopeId) (guard : Guard)
    (e : Expr) : Below cut (condition inv scope guard e) (condition inv' scope guard e) := by
  refine (below_expr hinv scope e).bind fun v => ?_
  refine (below_plain v e.span).bind fun u => ?_
  exact (agree_truth guard u.alike_any trivial).below

theorem appends_loop {c : Eval Bool} {b : Eval Flow} (hc : Appends c) (hb : Appends b)
    (turns : Nat) : Appends (loop c b turns) := by
  induction turns with
  | zero => exact fun _ => trivial
  | succ turns ih =>
      rw [loop]
      refine hc.bind fun go => ?_
      cases go with
      | false => exact .refl
      | true =>
          refine hb.bind fun flow => ?_
          cases flow with
          | next v => exact ih
          | broke span => exact .refl
          | returned v => exact .refl

/-- With more turns a loop goes on where it would have been cut off. -/
theorem below_loop {c c' : Eval Bool} {b b' : Eval Flow} (hc : Below cut c c')
    (hb : Below cut b b') {turns turns' : Nat} (hturns : turns ≤ turns') :
    Below cut (loop c b turns) (loop c' b' turns') := by
  induction turns generalizing turns' with
  | zero => exact fun w => .exhausted (appends_loop hc.appends hb.appends turns' w)
  | succ turns ih =>
      obtain ⟨turns', rfl⟩ := Nat.exists_eq_add_of_lt hturns
      rw [loop, loop]
      refine hc.bind fun go => ?_
      cases go with
      | false => exact below_pure _
      | true =>
          refine hb.bind fun flow => ?_
          cases flow with
          | next v => exact ih (Nat.le_add_right turns turns')
          | broke span => exact below_pure _
          | returned v => exact below_pure _

variable {maxTurns maxTurns' : Nat}

mutual

theorem below_stmt (hinv : BelowInvoke cut inv inv') (hturns : maxTurns ≤ maxTurns')
    (scope : ScopeId) : (t : Stmt) →
    Below cut (stmt inv maxTurns scope t) (stmt inv' maxTurns' scope t)
  | .expr e _ => by
      rw [stmt, stmt]
      exact (below_expr hinv scope e).bind fun v => below_pure (Flow.next v)
  | .letIn x e _ => by
      rw [stmt, stmt]
      refine (below_expr hinv scope e).bind fun v => ?_
      have hdefine : Below cut (define scope x.name v) (define scope x.name v) :=
        (agree_define scope x.name v.alike_any).below
      exact hdefine.bind fun _ => below_pure _
  | .fnDecl x xs b _ => by
      rw [stmt, stmt]
      refine Below.bind ?_ fun _ => below_pure _
      exact (agree_define scope x.name (Value.alike_any _)).below
  | .ifThen c b _ => by
      rw [stmt, stmt]
      refine (below_condition hinv scope .ifThen c).bind fun go => ?_
      cases go with
      | false => exact below_pure _
      | true =>
          have hnew : Below cut (newScope scope) (newScope scope) := (agree_newScope scope).below
          exact hnew.bind fun inner => below_block hinv hturns inner b
  | .whileDo c b _ => by
      rw [stmt, stmt]
      refine below_loop (below_condition hinv scope .whileDo c) ?_ hturns
      have hnew : Below cut (newScope scope) (newScope scope) := (agree_newScope scope).below
      exact hnew.bind fun inner => below_block hinv hturns inner b
  | .returnUnit _ => by
      rw [stmt, stmt]
      exact below_pure _
  | .returnValue e _ => by
      rw [stmt, stmt]
      exact (below_expr hinv scope e).bind fun v => below_pure (Flow.returned v)
  | .breakOut _ => by
      rw [stmt, stmt]
      exact below_pure _

theorem below_block (hinv : BelowInvoke cut inv inv') (hturns : maxTurns ≤ maxTurns')
    (scope : ScopeId) : (b : Block) →
    Below cut (block inv maxTurns scope b) (block inv' maxTurns' scope b)
  | [] => by
      rw [block, block]
      exact below_pure _
  | t :: b => by
      rw [block, block]
      refine (below_stmt hinv hturns scope t).bind fun flow => ?_
      cases flow with
      | next v => exact below_block hinv hturns scope b
      | returned v => exact below_pure _
      | broke span => exact below_pure _

end

/-! ## Calls and programs -/

theorem below_body (hinv : BelowInvoke cut inv inv') (hturns : maxTurns ≤ maxTurns') (f : Closure)
    (args : List Value) : Below cut (body inv maxTurns f args) (body inv' maxTurns' f args) := by
  have hnew : Below cut (newScope f.scope) (newScope f.scope) := (agree_newScope f.scope).below
  refine hnew.bind fun scope => ?_
  have hbind : Below cut (bindParams scope f.params args) (bindParams scope f.params args) :=
    (agree_update fun _ _ hh => hh.defineAll scope (Value.allAlike_any args)).below
  refine hbind.bind fun _ => ?_
  refine (below_block hinv hturns scope f.body).bind fun flow => ?_
  cases flow with
  | returned v => exact below_pure v
  | broke span => exact below_raise _ _
  | next v => exact below_pure _

end

section
variable {cut : Cause → Prop} {depth more maxTurns maxTurns' : Nat} {traced : Bool}

/-- Where the limit on calls is higher by `more`, there are at each call that many more to come.
The record of a call does not show the difference. -/
theorem below_invoke (hmore : more = 0 ∨ ∀ n name, cut (.tooManyCalls n name))
    (hturns : maxTurns ≤ maxTurns') (left : Nat) :
    BelowInvoke cut (invoke ⟨depth, maxTurns, traced⟩ left)
      (invoke ⟨depth + more, maxTurns', traced⟩ (left + more)) := by
  induction left with
  | zero =>
      intro f args span
      rw [Nat.zero_add]
      cases more with
      | zero =>
          rw [invoke, invoke]
          split
          · exact below_raise _ _
          · exact below_raise _ _
      | succ more =>
          -- the call is one too many on the left only
          have hcut := hmore.resolve_left (Nat.succ_ne_zero more)
          have happends :
              Appends (invoke ⟨depth + (more + 1), maxTurns', traced⟩ (more + 1) f args span) :=
            (agree_invoke _ _ f.alike_any (Value.allAlike_any args) trivial).appends
          by_cases hlength : args.length = f.params.length
          · rw [invoke, if_pos hlength]
            exact fun w => .cut (hcut _ _) (.refl w) (happends w)
          · rw [invoke, invoke, if_neg hlength, if_neg hlength]
            exact below_raise _ _
  | succ left ih =>
      intro f args span
      rw [Nat.add_right_comm, invoke, invoke]
      split
      · have hnote : ∀ limits, Below cut (noteCall limits f (depth - left))
            (noteCall limits f (depth - left)) := fun limits =>
          (agree_noteCall limits f.alike_any _).below
        dsimp only
        rw [Nat.add_sub_add_right]
        exact (hnote ⟨depth, maxTurns, traced⟩).bind fun _ => below_body ih hturns f args
      · exact below_raise _ _

theorem below_programFrom (hmore : more = 0 ∨ ∀ n name, cut (.tooManyCalls n name))
    (hturns : maxTurns ≤ maxTurns') (scope : ScopeId) (last : Value) (p : Program) :
    Below cut (programFrom ⟨depth, maxTurns, traced⟩ scope last p)
      (programFrom ⟨depth + more, maxTurns', traced⟩ scope last p) := by
  induction p generalizing last with
  | nil => exact below_pure last
  | cons s rest ih =>
      rw [programFrom, programFrom]
      refine (below_stmt (below_invoke hmore hturns depth) hturns scope s).bind fun flow => ?_
      cases flow with
      | next v => exact ih _
      | returned v => exact below_pure v
      | broke span => exact below_raise _ _

theorem below_program (hmore : more = 0 ∨ ∀ n name, cut (.tooManyCalls n name))
    (hturns : maxTurns ≤ maxTurns') (scope : ScopeId) (p : Program) :
    Below cut (program ⟨depth, maxTurns, traced⟩ scope p)
      (program ⟨depth + more, maxTurns', traced⟩ scope p) :=
  below_programFrom hmore hturns scope .unit p

/-- Where nothing but the turns can cut off, a run that has not come to their end is the same. -/
theorem Below.eq_of_ne_exhausted {α : Type} {x y : Eval α} {w : World}
    (h : Below (fun _ => False) x y) (hne : x w ≠ .exhausted) : y w = x w := by
  have hw := h w
  generalize x w = o, y w = o' at hw hne
  cases hw with
  | same _ => rfl
  | exhausted _ => exact absurd rfl hne
  | cut hfalse _ _ => exact hfalse.elim

/-- More turns do not change a run that has not been cut off. -/
theorem program_of_le (hturns : maxTurns ≤ maxTurns') {scope : ScopeId} {p : Program} {w : World}
    (h : program ⟨depth, maxTurns, traced⟩ scope p w ≠ .exhausted) :
    program ⟨depth, maxTurns', traced⟩ scope p w = program ⟨depth, maxTurns, traced⟩ scope p w :=
  (below_program (.inl rfl) hturns scope p).eq_of_ne_exhausted h

theorem topBlock_of_le (hturns : maxTurns ≤ maxTurns') {scope : ScopeId} {p : Program} {w : World}
    (h : topBlock ⟨depth, maxTurns, traced⟩ scope p w ≠ .exhausted) :
    topBlock ⟨depth, maxTurns', traced⟩ scope p w = topBlock ⟨depth, maxTurns, traced⟩ scope p w :=
  (below_block (below_invoke (.inl rfl) hturns depth) hturns scope p).eq_of_ne_exhausted h

end

end Eval

end HamScript
