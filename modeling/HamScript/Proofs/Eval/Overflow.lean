/-
# Too many calls

A run stops with too many calls where a function is called, with the right number of arguments,
while as many calls are active as may be.  Both directions are shown for the stages that a run comes
to.

* A call that may not become active any more is a fault (`Overruns`), and a fault of a part is the
  fault of the whole (`Part.fault`).
* There is no other way to such a fault.  A pass through the evaluator finds the call to which it is
  due (`accounts_program`): a computation that calls nothing does not have this fault (`Calm`), and
  one that is made of parts has it from the first part that does.

How many calls are active at a stage is counted along the way to it (`Nested`): one for each call
that the way leads into.  Together with those that may still become active they are always as many
as at the beginning (`Nested.left_add`).
-/
import HamScript.Proofs.Eval.Answer

namespace HamScript

open Source (Span)

theorem Outcome.map_eq_fault_iff {α β : Type} {g : α → β} {o : Outcome α} {e : RuntimeFault}
    {w : World} : o.map g = .fault e w ↔ o = .fault e w := by
  cases o <;> simp [Outcome.map]

namespace Eval

variable {limits : Limits}

/-! ## The active calls -/

/-- A call is active while its parts are run. -/
def Task.calls : Task → Nat
  | .call _ _ _ => 1
  | _ => 0

/-- The run that begins with the stage `a` comes to the stage `b` while `k` of its calls are
active. -/
inductive Nested (limits : Limits) (a : Stage) : (k : Nat) → (b : Stage) → Prop
  | refl : Nested limits a 0 a
  | tail {k : Nat} {b c : Stage} :
      Nested limits a k b → Part limits b c → Nested limits a (k + b.task.calls) c

theorem Part.left_add {a b : Stage} (h : Part limits a b) : b.left + a.task.calls = a.left := by
  cases h <;> rfl

theorem Nested.left_add {a b : Stage} {k : Nat} (h : Nested limits a k b) :
    b.left + k = a.left := by
  induction h with
  | refl => rfl
  | @tail k b c _ hpart ih =>
      have hleft := hpart.left_add
      omega

theorem Nested.reaches {a b : Stage} {k : Nat} (h : Nested limits a k b) :
    Reaches limits a b := by
  induction h with
  | refl => exact .refl
  | tail _ hpart ih => exact ih.tail hpart

theorem Reaches.nested {a b : Stage} (h : Reaches limits a b) : ∃ k, Nested limits a k b := by
  induction h with
  | refl => exact ⟨0, .refl⟩
  | tail _ hpart ih =>
      obtain ⟨k, hk⟩ := ih
      exact ⟨_, hk.tail hpart⟩

/-! ## A fault of a part -/

section
variable {inv : Invoke} {scope : ScopeId} {e : Expr} {w w' : World}

theorem plainExpr_bind_of_value {β : Type} {f : Value → Eval β} {v : Value}
    (h : plainExpr inv scope e w = .value v w') :
    (expr inv scope e >>= fun u => plain u e.span >>= f) w = f v w' := by
  obtain ⟨u, w₁, hu, hv⟩ := exists_of_bind_value h
  rw [bind_of_value hu, bind_of_value hv]

theorem condition_of_fault {guard : Guard} {f : RuntimeFault}
    (h : expr inv scope e w = .fault f w') : condition inv scope guard e w = .fault f w' := by
  rw [condition, bind_of_fault h]

end

/-- A fault of a part is one of the whole. -/
theorem Part.fault {a b : Stage} (h : Part limits a b) {e : RuntimeFault} {w : World}
    (hb : b.outcome limits = .fault e w) : a.outcome limits = .fault e w := by
  cases h with
  -- binding parameters has no fault
  | params => cases hb
  | param => cases hb
  | operand | leftOperand | assigned | callee | receiver =>
      refine Outcome.map_eq_fault_iff.mpr ?_
      rw [expr, bind_of_fault (Outcome.map_eq_fault_iff.mp hb)]
  | rightOperand hl =>
      refine Outcome.map_eq_fault_iff.mpr ?_
      rw [expr, plainExpr_bind_of_value hl, bind_of_fault (Outcome.map_eq_fault_iff.mp hb)]
  | callArgs hc =>
      refine Outcome.map_eq_fault_iff.mpr ?_
      rw [expr, plainExpr_bind_of_value hc, bind_of_fault hb]
  | called hc hargs =>
      refine Outcome.map_eq_fault_iff.mpr ?_
      rw [expr, plainExpr_bind_of_value hc, bind_of_value hargs]
      exact Outcome.map_eq_fault_iff.mp hb
  | methodArgs hr =>
      refine Outcome.map_eq_fault_iff.mpr ?_
      rw [expr, plainExpr_bind_of_value hr, bind_of_fault (Outcome.map_eq_fault_iff.mp hb)]
  | firstExpr =>
      change exprs _ _ _ _ = _
      rw [exprs, bind_of_fault (Outcome.map_eq_fault_iff.mp hb)]
  | laterExprs he =>
      change exprs _ _ _ _ = _
      rw [exprs, bind_of_value he, bind_of_fault hb]
  | firstPlain =>
      refine Outcome.map_eq_fault_iff.mpr ?_
      rw [plainExprs, bind_of_fault (Outcome.map_eq_fault_iff.mp hb)]
  | laterPlain he =>
      refine Outcome.map_eq_fault_iff.mpr ?_
      rw [plainExprs, plainExpr_bind_of_value he, bind_of_fault (Outcome.map_eq_fault_iff.mp hb)]
  | body harity henter hbind =>
      obtain ⟨_, w₁, hnote, hnew⟩ := exists_of_bind_value henter
      refine Outcome.map_eq_fault_iff.mpr ?_
      rw [invoke, if_pos harity]
      dsimp only
      rw [bind_of_value hnote, Eval.body, bind_of_value hnew, bind_of_value hbind,
        bind_of_fault (Outcome.map_eq_fault_iff.mp hb)]
  | exprStmt | letStmt | returnStmt =>
      refine Outcome.map_eq_fault_iff.mpr ?_
      rw [stmt, bind_of_fault (Outcome.map_eq_fault_iff.mp hb)]
  | ifCondition =>
      refine Outcome.map_eq_fault_iff.mpr ?_
      rw [stmt, bind_of_fault (condition_of_fault (Outcome.map_eq_fault_iff.mp hb))]
  | ifBody hc hnew =>
      refine Outcome.map_eq_fault_iff.mpr ?_
      rw [stmt, bind_of_value hc, if_pos rfl, bind_of_value hnew]
      exact Outcome.map_eq_fault_iff.mp hb
  | whileLoop =>
      refine Outcome.map_eq_fault_iff.mpr ?_
      rw [stmt]
      exact Outcome.map_eq_fault_iff.mp hb
  | turnCondition =>
      refine Outcome.map_eq_fault_iff.mpr ?_
      rw [loop, bind_of_fault (condition_of_fault (Outcome.map_eq_fault_iff.mp hb))]
  | turnBody hc hnew =>
      refine Outcome.map_eq_fault_iff.mpr ?_
      rw [loop, bind_of_value hc, if_pos rfl, bind_of_fault]
      rw [innerBlock, bind_of_value hnew]
      exact Outcome.map_eq_fault_iff.mp hb
  | nextTurn hc hbody =>
      refine Outcome.map_eq_fault_iff.mpr ?_
      rw [loop, bind_of_value hc, if_pos rfl, bind_of_value hbody]
      exact Outcome.map_eq_fault_iff.mp hb
  | firstStmt =>
      refine Outcome.map_eq_fault_iff.mpr ?_
      rw [block, bind_of_fault (Outcome.map_eq_fault_iff.mp hb)]
  | laterStmts hs =>
      refine Outcome.map_eq_fault_iff.mpr ?_
      rw [block, bind_of_value hs]
      exact Outcome.map_eq_fault_iff.mp hb
  | programStmt =>
      refine Outcome.map_eq_fault_iff.mpr ?_
      rw [programFrom, bind_of_fault (Outcome.map_eq_fault_iff.mp hb)]
  | programRest hs =>
      refine Outcome.map_eq_fault_iff.mpr ?_
      rw [programFrom, bind_of_value hs]
      exact Outcome.map_eq_fault_iff.mp hb

theorem Reaches.fault {a b : Stage} (h : Reaches limits a b) {e : RuntimeFault} {w : World}
    (hb : b.outcome limits = .fault e w) : a.outcome limits = .fault e w := by
  induction h with
  | refl => exact hb
  | tail _ hpart ih => exact ih (hpart.fault hb)

/-! ## Computations that call nothing -/

/-- The computation never ends because of too many calls. -/
def Calm {α : Type} (x : Eval α) : Prop :=
  ∀ w e w', x w = .fault e w' → e.cause.faultClass ≠ .stackOverflow

section
variable {α β : Type}

theorem calm_pure (a : α) : Calm (pure a : Eval α) := by
  intro w e w' h
  cases h

theorem calm_read (look : Heap → α) : Calm (read look) := by
  intro w e w' h
  cases h

theorem calm_update (f : Heap → Heap) : Calm (update f) := by
  intro w e w' h
  cases h

theorem calm_newScope (scope : ScopeId) : Calm (newScope scope) := by
  intro w e w' h
  cases h

theorem calm_misuse (m : Misuse) : Calm (misuse m : Eval α) := by
  intro w e w' h
  cases h

theorem calm_raise {cause : Cause} (hcause : decide (cause.faultClass = .stackOverflow) = false)
    (span : Span) : Calm (raise cause span : Eval α) := by
  intro w e w' h
  cases h
  exact of_decide_eq_false hcause

theorem exists_of_bind_fault {x : Eval α} {f : α → Eval β} {w w' : World} {e : RuntimeFault}
    (h : (x >>= f) w = .fault e w') :
    x w = .fault e w' ∨ ∃ a w₁, x w = .value a w₁ ∧ f a w₁ = .fault e w' := by
  change Eval.bind x f w = .fault e w' at h
  rw [Eval.bind] at h
  cases hx : x w with
  | value a w₁ =>
      rw [hx] at h
      exact .inr ⟨a, w₁, rfl, h⟩
  | fault f w₁ =>
      rw [hx] at h
      cases h
      exact .inl rfl
  | misuse m => rw [hx] at h; cases h
  | exhausted => rw [hx] at h; cases h

theorem Calm.bind {x : Eval α} {f : α → Eval β} (hx : Calm x) (hf : ∀ a, Calm (f a)) :
    Calm (x >>= f) := by
  intro w e w' h
  rcases exists_of_bind_fault h with h | ⟨a, w₁, -, h⟩
  · exact hx w e w' h
  · exact hf a w₁ e w' h

end

theorem calm_filled (slot : Slot) : Calm (filled slot) := by
  cases slot with
  | none => exact calm_misuse _
  | some v => exact calm_pure v

theorem calm_derefSlot (v : Value) (span : Span) : Calm (derefSlot v span) := by
  cases v with
  | pointer p =>
      refine (calm_read _).bind fun slot? => ?_
      cases slot? with
      | none => exact calm_raise rfl span
      | some slot => exact calm_pure slot
  | number | string | bool | unit | function | builtin => exact calm_pure _

theorem calm_plain (v : Value) (span : Span) : Calm (plain v span) :=
  (calm_derefSlot v span).bind calm_filled

theorem calm_lookup (scope : ScopeId) (name : String) (span : Span) :
    Calm (lookup scope name span) := by
  refine (calm_read _).bind fun slot? => ?_
  cases slot? with
  | none => exact calm_raise rfl span
  | some slot => exact calm_filled slot

theorem calm_reference (scope : ScopeId) (name : String) (span : Span) :
    Calm (reference scope name span) := by
  refine (calm_read _).bind fun p? => ?_
  cases p? with
  | none => exact calm_raise rfl span
  | some p => exact calm_pure _

theorem calm_store (scope : ScopeId) (name : String) (v : Value) (span : Span) :
    Calm (store scope name v span) := by
  refine (calm_read _).bind fun slot? => ?_
  cases slot? with
  | none => exact calm_raise rfl span
  | some slot =>
      refine (calm_read _).bind fun last? => ?_
      cases last? with
      | none => exact calm_raise rfl span
      | some last => exact calm_update _

theorem calm_negate (v : Value) (span : Span) : Calm (negate v span) := by
  cases v with
  | number n => exact calm_pure _
  | string | bool | unit | function | builtin | pointer => exact calm_raise rfl span

theorem calm_truth (guard : Guard) (v : Value) (span : Span) : Calm (truth guard v span) := by
  cases v with
  | bool b => exact calm_pure b
  | number | string | unit | function | builtin | pointer => exact calm_raise rfl span

theorem calm_divide (a b : Number) (span : Span) : Calm (divide a b span) := by
  rw [divide]
  split
  · exact calm_raise rfl span
  · cases a.quotient? b with
    | none => exact calm_misuse _
    | some q => exact calm_pure _

theorem calm_operate (op : BinaryOp) (l r : Value) (span : Span) :
    Calm (operate op l r span) := by
  have hmismatch : Calm (raise (.operandKinds op l.kind r.kind) span : Eval Value) :=
    calm_raise rfl span
  cases op with
  | equal | notEqual =>
      simp only [operate]
      split
      · exact calm_pure _
      · exact hmismatch
  | add =>
      simp only [operate]
      split
      · exact calm_pure _
      · exact calm_pure _
      · exact hmismatch
  | subtract | multiply =>
      simp only [operate]
      split
      · exact calm_pure _
      · exact hmismatch
  | divide =>
      simp only [operate]
      split
      · exact calm_divide _ _ span
      · exact hmismatch

theorem calm_numberFor (m : Method) (v : Value) (span : Span) : Calm (numberFor m v span) := by
  cases v with
  | number n => exact calm_pure n
  | string | bool | unit | function | builtin | pointer => exact calm_raise rfl span

theorem calm_storeTo (scope : ScopeId) (target? : Option Ident) (v : Value) :
    Calm (storeTo scope target? v) := by
  cases target? with
  | none => exact calm_pure ()
  | some x => exact calm_store scope x.name v x.span

theorem calm_callMethod (scope : ScopeId) (target? : Option Ident) (receiver : Value)
    (name : Ident) (args : List (Value × Span)) (span : Span) :
    Calm (callMethod scope target? receiver name args span) := by
  rw [callMethod]
  cases BoundMethod.of? receiver name.name with
  | none => exact calm_raise rfl name.span
  | some m =>
      dsimp only
      unfold runMethod
      split
      · exact calm_pure _
      · exact (calm_numberFor _ _ _).bind fun b => calm_pure _
      · refine (calm_numberFor _ _ _).bind fun b => ?_
        exact (calm_storeTo scope target? _).bind fun _ => calm_pure _
      · exact calm_raise rfl span

theorem calm_say (text : String) : Calm (Builtin.say text) := by
  intro w e w' h
  cases h

theorem calm_builtin (b : Builtin) (args : List Slot) (span : Span) : Calm (b.run args span) := by
  cases b with
  | println => exact (calm_read _).bind fun _ => calm_say _
  | print => exact (calm_read _).bind fun _ => calm_say _
  | clear => exact calm_say _
  | format =>
      change Calm (Builtin.runFormat args span)
      unfold Builtin.runFormat
      split
      · exact calm_raise rfl span
      · refine (calm_read _).bind fun shown => ?_
        split
        · exact calm_pure _
        · exact calm_raise rfl span
      · exact calm_raise rfl span
      · exact calm_misuse _
  | wait =>
      have hrefuse : ∀ slot : Slot, Calm (do
          raise (.waitArgument (← read (·.text slot))) span : Eval Value) :=
        fun slot => (calm_read _).bind fun _ => calm_raise rfl span
      change Calm (Builtin.runWait args span)
      unfold Builtin.runWait
      split
      · exact calm_misuse _
      · split
        · exact calm_pure _
        · exact hrefuse _
      · exact hrefuse _

theorem calm_derefAll (span : Span) : (vs : List Value) → Calm (derefAll span vs)
  | [] => calm_pure []
  | v :: vs => (calm_derefSlot v span).bind fun _ =>
      (calm_derefAll span vs).bind fun _ => calm_pure _

theorem calm_callBuiltin (b : Builtin) (args : List Value) (span : Span) :
    Calm (callBuiltin b args span) := by
  have hrun : Calm (derefAll span args >>= fun slots => b.run slots span) :=
    (calm_derefAll span args).bind fun slots => calm_builtin b slots span
  rw [callBuiltin]
  cases b.arity? with
  | none => exact hrun
  | some n =>
      dsimp only
      split
      · exact hrun
      · exact calm_raise rfl span

theorem calm_noteCall (limits : Limits) (f : Closure) (depth : Nat) :
    Calm (noteCall limits f depth) := by
  intro w e w' h
  rw [noteCall] at h
  split at h <;> cases h

/-! ## The call that is one too many -/

/-- The stage is a call with the right number of arguments, and no more calls may become active: the
fault is what it ends with. -/
inductive Overruns (limits : Limits) : Stage → RuntimeFault → World → Prop
  | call {f : Closure} {args : List Value} {span : Span} {w : World} :
      args.length = f.params.length →
      Overruns limits ⟨0, .call f args span, w⟩
        ⟨.tooManyCalls limits.maxDepth f.shownName, span⟩ w

theorem Overruns.outcome {b : Stage} {e : RuntimeFault} {w : World} (h : Overruns limits b e w) :
    b.outcome limits = .fault e w := by
  cases h with
  | call harity =>
      refine Outcome.map_eq_fault_iff.mpr ?_
      rw [invoke, if_pos harity]
      rfl

/-- If the computation ends with too many calls, the run that begins with the stage comes to the
call to which this is due. -/
def Accounts (limits : Limits) (a : Stage) {α : Type} (x : Eval α) (w : World) : Prop :=
  ∀ e w', x w = .fault e w' → e.cause.faultClass = .stackOverflow →
    ∃ b, Reaches limits a b ∧ Overruns limits b e w'

section
variable {α β : Type} {a b : Stage} {w : World}

theorem Calm.accounts {x : Eval α} (h : Calm x) (a : Stage) (w : World) :
    Accounts limits a x w := by
  intro e w' hx hclass
  exact absurd hclass (h w e w' hx)

theorem Accounts.bind {x : Eval α} {f : α → Eval β} (hx : Accounts limits a x w)
    (hf : ∀ v w₁, x w = .value v w₁ → Accounts limits a (f v) w₁) :
    Accounts limits a (x >>= f) w := by
  intro e w' h hclass
  rcases exists_of_bind_fault h with h | ⟨v, w₁, hv, h⟩
  · exact hx e w' h hclass
  · exact hf v w₁ hv e w' h hclass

theorem Accounts.of_part {x : Eval α} (hpart : Part limits a b) (h : Accounts limits b x w) :
    Accounts limits a x w := by
  intro e w' hx hclass
  obtain ⟨c, hc, hover⟩ := h e w' hx hclass
  exact ⟨c, .head hpart hc, hover⟩

/-- A part whose value is used as a plain one, and what comes after it. -/
theorem Accounts.plain_bind {n : Nat} {scope : ScopeId} {e : Expr} {f : Value → Eval β}
    (hx : Accounts limits a (expr (invoke limits n) scope e) w)
    (hf : ∀ v w₁, plainExpr (invoke limits n) scope e w = .value v w₁ →
      Accounts limits a (f v) w₁) :
    Accounts limits a (expr (invoke limits n) scope e >>= fun u => plain u e.span >>= f) w := by
  refine hx.bind fun u w₁ hu => ((calm_plain u e.span).accounts a w₁).bind fun v w₂ hv => ?_
  refine hf v w₂ ?_
  rw [plainExpr, bind_of_value hu]
  exact hv

end

/-- A call with this many more calls to come has too many calls only because of one that it comes
to. -/
def AccountsCalls (limits : Limits) (n : Nat) : Prop :=
  ∀ f args span w, Accounts limits ⟨n, .call f args span, w⟩ (invoke limits n f args span) w

section
variable {n : Nat}

mutual

theorem accounts_expr (h : AccountsCalls limits n) (scope : ScopeId) : (e : Expr) → (w : World) →
    Accounts limits ⟨n, .expr scope e, w⟩ (expr (invoke limits n) scope e) w
  | .int _ _, w => by rw [expr]; exact (calm_pure _).accounts _ w
  | .float _ _, w => by rw [expr]; exact (calm_pure _).accounts _ w
  | .string _ _, w => by rw [expr]; exact (calm_pure _).accounts _ w
  | .bool _ _, w => by rw [expr]; exact (calm_pure _).accounts _ w
  | .var x, w => by rw [expr]; exact (calm_lookup _ _ _).accounts _ w
  | .ref x span, w => by rw [expr]; exact (calm_reference _ _ _).accounts _ w
  | .negate operand span, w => by
      rw [expr]
      refine ((accounts_expr h scope operand w).of_part .operand).plain_bind fun v w₁ _ => ?_
      exact (calm_negate v span).accounts _ w₁
  | .binary op left right span, w => by
      rw [expr]
      refine ((accounts_expr h scope left w).of_part .leftOperand).plain_bind fun l w₁ hl => ?_
      refine ((accounts_expr h scope right w₁).of_part (.rightOperand hl)).plain_bind
        fun r w₂ _ => ?_
      exact (calm_operate op l r span).accounts _ w₂
  | .assign x value span, w => by
      rw [expr]
      refine ((accounts_expr h scope value w).of_part .assigned).bind fun v w₁ _ => ?_
      exact ((calm_store _ _ _ _).bind fun _ => calm_pure v).accounts _ w₁
  | .call callee args span, w => by
      rw [expr]
      refine ((accounts_expr h scope callee w).of_part .callee).plain_bind fun f w₁ hf => ?_
      refine ((accounts_exprs h scope args w₁).of_part (.callArgs hf)).bind fun vs w₂ hvs => ?_
      cases f with
      | function f => exact (h f vs span w₂).of_part (.called hf hvs)
      | builtin b => exact (calm_callBuiltin b vs span).accounts _ w₂
      | number | string | bool | unit | pointer => exact (calm_raise rfl span).accounts _ w₂
  | .method receiver name args span, w => by
      rw [expr]
      refine ((accounts_expr h scope receiver w).of_part .receiver).plain_bind fun v w₁ hv => ?_
      refine ((accounts_plainExprs h scope args w₁).of_part (.methodArgs hv)).bind
        fun vs w₂ _ => ?_
      exact (calm_callMethod _ _ _ _ _ _).accounts _ w₂
  | .fn _ _ _, w => by rw [expr]; exact (calm_pure _).accounts _ w

theorem accounts_exprs (h : AccountsCalls limits n) (scope : ScopeId) : (es : List Expr) →
    (w : World) →
    Accounts limits ⟨n, .exprs scope es, w⟩ (exprs (invoke limits n) scope es) w
  | [], w => by rw [exprs]; exact (calm_pure _).accounts _ w
  | e :: es, w => by
      rw [exprs]
      refine ((accounts_expr h scope e w).of_part .firstExpr).bind fun v w₁ hv => ?_
      refine ((accounts_exprs h scope es w₁).of_part (.laterExprs hv)).bind fun vs w₂ _ => ?_
      exact (calm_pure _).accounts _ w₂

theorem accounts_plainExprs (h : AccountsCalls limits n) (scope : ScopeId) : (es : List Expr) →
    (w : World) →
    Accounts limits ⟨n, .plainExprs scope es, w⟩ (plainExprs (invoke limits n) scope es) w
  | [], w => by rw [plainExprs]; exact (calm_pure _).accounts _ w
  | e :: es, w => by
      rw [plainExprs]
      refine ((accounts_expr h scope e w).of_part .firstPlain).plain_bind fun v w₁ hv => ?_
      refine ((accounts_plainExprs h scope es w₁).of_part (.laterPlain hv)).bind fun vs w₂ _ => ?_
      exact (calm_pure _).accounts _ w₂

end

theorem Accounts.condition {a : Stage} {scope : ScopeId} {c : Expr} {w : World}
    (h : Accounts limits a (expr (invoke limits n) scope c) w) (guard : Guard) :
    Accounts limits a (condition (invoke limits n) scope guard c) w :=
  h.plain_bind fun v w₁ _ => (calm_truth guard v c.span).accounts a w₁

/-- The turns of a loop, for a body of which it is known. -/
theorem accounts_loop (h : AccountsCalls limits n) (scope : ScopeId) (c : Expr) {body : Block}
    (hbody : ∀ i w, Accounts limits ⟨n, .block i body, w⟩
      (block (invoke limits n) limits.maxTurns i body) w) (turns : Nat) (w : World) :
    Accounts limits ⟨n, .loop scope c body turns, w⟩
      (loop (condition (invoke limits n) scope .whileDo c)
        (innerBlock (invoke limits n) limits.maxTurns scope body) turns) w := by
  induction turns generalizing w with
  | zero =>
      intro e w' hx
      cases hx
  | succ turns ih =>
      rw [loop]
      refine (((accounts_expr h scope c w).of_part .turnCondition).condition .whileDo).bind
        fun go w₁ hgo => ?_
      cases go with
      | false => exact (calm_pure _).accounts _ w₁
      | true =>
          have hinner : Accounts limits ⟨n, .loop scope c body (turns + 1), w⟩
              (innerBlock (invoke limits n) limits.maxTurns scope body) w₁ := by
            refine ((calm_newScope scope).accounts _ w₁).bind fun i w₂ hi => ?_
            exact (hbody i w₂).of_part (.turnBody hgo hi)
          refine hinner.bind fun flow w₂ hflow => ?_
          cases flow with
          | next v => exact (ih w₂).of_part (.nextTurn hgo hflow)
          | broke span => exact (calm_pure _).accounts _ w₂
          | returned v => exact (calm_pure _).accounts _ w₂

mutual

theorem accounts_stmt (h : AccountsCalls limits n) : (scope : ScopeId) → (s : Stmt) →
    (w : World) →
    Accounts limits ⟨n, .stmt scope s, w⟩ (stmt (invoke limits n) limits.maxTurns scope s) w
  | scope, .expr e _, w => by
      rw [stmt]
      refine ((accounts_expr h scope e w).of_part .exprStmt).bind fun v w₁ _ => ?_
      exact (calm_pure _).accounts _ w₁
  | scope, .letIn x e _, w => by
      rw [stmt]
      refine ((accounts_expr h scope e w).of_part .letStmt).bind fun v w₁ _ => ?_
      exact ((calm_update _).bind fun _ => calm_pure _).accounts _ w₁
  | scope, .fnDecl _ _ _ _, w => by
      rw [stmt]
      exact ((calm_update _).bind fun _ => calm_pure _).accounts _ w
  | scope, .ifThen c body _, w => by
      rw [stmt]
      refine (((accounts_expr h scope c w).of_part .ifCondition).condition .ifThen).bind
        fun go w₁ hgo => ?_
      cases go with
      | false => exact (calm_pure _).accounts _ w₁
      | true =>
          refine ((calm_newScope scope).accounts _ w₁).bind fun i w₂ hi => ?_
          exact (accounts_block h i body w₂).of_part (.ifBody hgo hi)
  | scope, .whileDo c body _, w => by
      rw [stmt]
      refine (accounts_loop h scope c (fun i w => accounts_block h i body w) limits.maxTurns
        w).of_part .whileLoop
  | scope, .returnUnit _, w => by rw [stmt]; exact (calm_pure _).accounts _ w
  | scope, .returnValue e _, w => by
      rw [stmt]
      refine ((accounts_expr h scope e w).of_part .returnStmt).bind fun v w₁ _ => ?_
      exact (calm_pure _).accounts _ w₁
  | scope, .breakOut _, w => by rw [stmt]; exact (calm_pure _).accounts _ w

theorem accounts_block (h : AccountsCalls limits n) : (scope : ScopeId) → (b : Block) →
    (w : World) →
    Accounts limits ⟨n, .block scope b, w⟩ (block (invoke limits n) limits.maxTurns scope b) w
  | scope, [], w => by rw [block]; exact (calm_pure _).accounts _ w
  | scope, s :: rest, w => by
      rw [block]
      refine ((accounts_stmt h scope s w).of_part .firstStmt).bind fun flow w₁ hflow => ?_
      cases flow with
      | next v => exact (accounts_block h scope rest w₁).of_part (.laterStmts hflow)
      | broke span => exact (calm_pure _).accounts _ w₁
      | returned v => exact (calm_pure _).accounts _ w₁

end

end

/-- Either the call itself is one too many, or it is due to one in its body. -/
theorem accounts_invoke (limits : Limits) (n : Nat) : AccountsCalls limits n := by
  induction n with
  | zero =>
      intro f args span w e w' hx hclass
      rw [invoke] at hx
      split at hx
      next harity =>
        cases hx
        exact ⟨_, .refl, .call harity⟩
      next =>
        cases hx
        cases hclass
  | succ n ih =>
      intro f args span w
      rw [invoke]
      split
      next harity =>
        refine ((calm_noteCall _ _ _).accounts _ w).bind fun _ w₁ hnote => ?_
        refine ((calm_newScope f.scope).accounts _ w₁).bind fun i w₂ hnew => ?_
        have henter : enter limits n f w = .value i w₂ := by
          rw [enter, bind_of_value hnote]
          exact hnew
        refine ((calm_update _).accounts _ w₂).bind fun _ w₃ hbind => ?_
        refine ((accounts_block ih i f.body w₃).of_part (.body harity henter hbind)).bind
          fun flow w₄ _ => ?_
        cases flow with
        | next v => exact (calm_pure _).accounts _ w₄
        | broke span => exact (calm_raise rfl span).accounts _ w₄
        | returned v => exact (calm_pure _).accounts _ w₄
      next => exact (calm_raise rfl span).accounts _ w

/-- A program ends with too many calls only because of a call that it comes to. -/
theorem accounts_program (limits : Limits) (scope : ScopeId) (last : Value) (p : Program)
    (w : World) : Accounts limits ⟨limits.maxDepth, .program scope last p, w⟩
      (programFrom limits scope last p) w := by
  induction p generalizing last w with
  | nil => exact (calm_pure last).accounts _ w
  | cons s rest ih =>
      refine ((accounts_stmt (accounts_invoke limits _) scope s w).of_part .programStmt).bind
        fun flow w₁ hflow => ?_
      cases flow with
      | next v => exact (ih _ w₁).of_part (.programRest hflow)
      | broke span => exact (calm_raise rfl span).accounts _ w₁
      | returned v => exact (calm_pure _).accounts _ w₁

end Eval

end HamScript
