/-
# What a run comes to on its way

The evaluator says in which world a run ends.  A run that is cut off, or that would go on for ever,
has no such world, and yet it has changed the heap on its way.

A stage of a run is a task that is begun in a world while so many more calls may become active.
`Part limits a b` says that the stage `b` is a part of the stage `a`: the task of `a` comes to begin
the task of `b`, in the world that its parts before that have left.  The premises of the rules are
runs of the evaluator itself, so nothing is evaluated a second time in another way.  A run comes to
the stages that are related to its first one by any number of such steps.

Proved here: at every stage the heap is well formed and has grown, and the scopes and values of the
task are in it (`Part.fits`, `Reaches.fits`); and the task commits no misuse, and every value it
leaves is in the heap that it leaves (`Stage.Fits.outcome`).
-/
import Mathlib.Logic.Relation
import HamScript.Proofs.Eval.Safe

namespace HamScript

open Source (Span)

namespace Outcome

/-- The outcome with another value. -/
def map {α β : Type} (f : α → β) : Outcome α → Outcome β
  | .value a w => .value (f a) w
  | .fault e w => .fault e w
  | .misuse m => .misuse m
  | .exhausted => .exhausted

end Outcome

/-- The value that a flow carries, if it carries one. -/
def Flow.values : Flow → List Value
  | .next v => [v]
  | .returned v => [v]
  | .broke _ => []

theorem Flow.LivesIn.values {h : Heap} {flow : Flow} (hf : flow.LivesIn h) :
    ∀ v ∈ flow.values, v.LivesIn h := by
  cases flow with
  | next u => intro v hv; rw [List.mem_singleton.mp hv]; exact hf
  | returned u => intro v hv; rw [List.mem_singleton.mp hv]; exact hf
  | broke span => intro v hv; exact nomatch hv

namespace Eval

/-- An expression whose value is used as a plain one. -/
def plainExpr (inv : Invoke) (scope : ScopeId) (e : Expr) : Eval Value := do
  let v ← expr inv scope e
  plain v e.span

/-- The body of an `if` or a `while`, in a scope of its own. -/
def innerBlock (inv : Invoke) (maxTurns : Nat) (scope : ScopeId) (b : Block) : Eval Flow := do
  let inner ← newScope scope
  block inv maxTurns inner b

/-- The beginning of a call: it is recorded, and its scope is made. -/
def enter (limits : Limits) (left : Nat) (f : Closure) : Eval ScopeId := do
  noteCall limits f (limits.maxDepth - left)
  newScope f.scope

/-- A piece of a run. -/
inductive Task where
  | expr (scope : ScopeId) (e : Expr)
  | exprs (scope : ScopeId) (es : List Expr)
  | plainExprs (scope : ScopeId) (es : List Expr)
  | call (f : Closure) (args : List Value) (span : Span)
  /-- Binding the parameters of a call that are not bound yet. -/
  | bind (scope : ScopeId) (bs : List (String × Value))
  | stmt (scope : ScopeId) (s : Stmt)
  | block (scope : ScopeId) (b : Block)
  /-- What is left of a loop that may take `turns` more turns. -/
  | loop (scope : ScopeId) (c : Expr) (body : Block) (turns : Nat)
  | program (scope : ScopeId) (last : Value) (p : Program)

/-- A task that is begun. -/
structure Stage where
  /-- How many more calls may become active. -/
  left : Nat
  task : Task
  world : World

/-- The second stage is a part of the first one. -/
inductive Part (limits : Limits) : Stage → Stage → Prop
  -- expressions
  | operand {n : Nat} {scope : ScopeId} {e : Expr} {span : Span} {w : World} :
      Part limits ⟨n, .expr scope (.negate e span), w⟩ ⟨n, .expr scope e, w⟩
  | leftOperand {n : Nat} {scope : ScopeId} {op : BinaryOp} {l r : Expr} {span : Span} {w : World} :
      Part limits ⟨n, .expr scope (.binary op l r span), w⟩ ⟨n, .expr scope l, w⟩
  | rightOperand {n : Nat} {scope : ScopeId} {op : BinaryOp} {l r : Expr} {span : Span} {v : Value}
      {w w' : World} :
      plainExpr (invoke limits n) scope l w = .value v w' →
      Part limits ⟨n, .expr scope (.binary op l r span), w⟩ ⟨n, .expr scope r, w'⟩
  | assigned {n : Nat} {scope : ScopeId} {x : Ident} {e : Expr} {span : Span} {w : World} :
      Part limits ⟨n, .expr scope (.assign x e span), w⟩ ⟨n, .expr scope e, w⟩
  | callee {n : Nat} {scope : ScopeId} {c : Expr} {args : List Expr} {span : Span} {w : World} :
      Part limits ⟨n, .expr scope (.call c args span), w⟩ ⟨n, .expr scope c, w⟩
  | callArgs {n : Nat} {scope : ScopeId} {c : Expr} {args : List Expr} {span : Span} {v : Value}
      {w w' : World} :
      plainExpr (invoke limits n) scope c w = .value v w' →
      Part limits ⟨n, .expr scope (.call c args span), w⟩ ⟨n, .exprs scope args, w'⟩
  | called {n : Nat} {scope : ScopeId} {c : Expr} {args : List Expr} {span : Span} {f : Closure}
      {vs : List Value} {w w₁ w₂ : World} :
      plainExpr (invoke limits n) scope c w = .value (.function f) w₁ →
      Eval.exprs (invoke limits n) scope args w₁ = .value vs w₂ →
      Part limits ⟨n, .expr scope (.call c args span), w⟩ ⟨n, .call f vs span, w₂⟩
  | receiver {n : Nat} {scope : ScopeId} {r : Expr} {name : Ident} {args : List Expr} {span : Span}
      {w : World} :
      Part limits ⟨n, .expr scope (.method r name args span), w⟩ ⟨n, .expr scope r, w⟩
  | methodArgs {n : Nat} {scope : ScopeId} {r : Expr} {name : Ident} {args : List Expr}
      {span : Span} {v : Value} {w w' : World} :
      plainExpr (invoke limits n) scope r w = .value v w' →
      Part limits ⟨n, .expr scope (.method r name args span), w⟩ ⟨n, .plainExprs scope args, w'⟩
  | firstExpr {n : Nat} {scope : ScopeId} {e : Expr} {es : List Expr} {w : World} :
      Part limits ⟨n, .exprs scope (e :: es), w⟩ ⟨n, .expr scope e, w⟩
  | laterExprs {n : Nat} {scope : ScopeId} {e : Expr} {es : List Expr} {v : Value} {w w' : World} :
      Eval.expr (invoke limits n) scope e w = .value v w' →
      Part limits ⟨n, .exprs scope (e :: es), w⟩ ⟨n, .exprs scope es, w'⟩
  | firstPlain {n : Nat} {scope : ScopeId} {e : Expr} {es : List Expr} {w : World} :
      Part limits ⟨n, .plainExprs scope (e :: es), w⟩ ⟨n, .expr scope e, w⟩
  | laterPlain {n : Nat} {scope : ScopeId} {e : Expr} {es : List Expr} {v : Value} {w w' : World} :
      plainExpr (invoke limits n) scope e w = .value v w' →
      Part limits ⟨n, .plainExprs scope (e :: es), w⟩ ⟨n, .plainExprs scope es, w'⟩
  -- calls
  | params {n : Nat} {f : Closure} {args : List Value} {span : Span} {i : ScopeId} {w w' : World} :
      args.length = f.params.length → enter limits n f w = .value i w' →
      Part limits ⟨n + 1, .call f args span, w⟩ ⟨n, .bind i (f.params.zip args), w'⟩
  | param {n : Nat} {scope : ScopeId} {b : String × Value} {bs : List (String × Value)}
      {w w' : World} :
      define scope b.1 b.2 w = .value () w' →
      Part limits ⟨n, .bind scope (b :: bs), w⟩ ⟨n, .bind scope bs, w'⟩
  | body {n : Nat} {f : Closure} {args : List Value} {span : Span} {i : ScopeId}
      {w w₁ w₂ : World} :
      args.length = f.params.length → enter limits n f w = .value i w₁ →
      bindParams i f.params args w₁ = .value () w₂ →
      Part limits ⟨n + 1, .call f args span, w⟩ ⟨n, .block i f.body, w₂⟩
  -- statements
  | exprStmt {n : Nat} {scope : ScopeId} {e : Expr} {span : Span} {w : World} :
      Part limits ⟨n, .stmt scope (.expr e span), w⟩ ⟨n, .expr scope e, w⟩
  | letStmt {n : Nat} {scope : ScopeId} {x : Ident} {e : Expr} {span : Span} {w : World} :
      Part limits ⟨n, .stmt scope (.letIn x e span), w⟩ ⟨n, .expr scope e, w⟩
  | returnStmt {n : Nat} {scope : ScopeId} {e : Expr} {span : Span} {w : World} :
      Part limits ⟨n, .stmt scope (.returnValue e span), w⟩ ⟨n, .expr scope e, w⟩
  | ifCondition {n : Nat} {scope : ScopeId} {c : Expr} {b : Block} {span : Span} {w : World} :
      Part limits ⟨n, .stmt scope (.ifThen c b span), w⟩ ⟨n, .expr scope c, w⟩
  | ifBody {n : Nat} {scope i : ScopeId} {c : Expr} {b : Block} {span : Span} {w w₁ w₂ : World} :
      condition (invoke limits n) scope .ifThen c w = .value true w₁ →
      newScope scope w₁ = .value i w₂ →
      Part limits ⟨n, .stmt scope (.ifThen c b span), w⟩ ⟨n, .block i b, w₂⟩
  | whileLoop {n : Nat} {scope : ScopeId} {c : Expr} {b : Block} {span : Span} {w : World} :
      Part limits ⟨n, .stmt scope (.whileDo c b span), w⟩ ⟨n, .loop scope c b limits.maxTurns, w⟩
  | turnCondition {n : Nat} {scope : ScopeId} {c : Expr} {b : Block} {turns : Nat} {w : World} :
      Part limits ⟨n, .loop scope c b (turns + 1), w⟩ ⟨n, .expr scope c, w⟩
  | turnBody {n : Nat} {scope i : ScopeId} {c : Expr} {b : Block} {turns : Nat}
      {w w₁ w₂ : World} :
      condition (invoke limits n) scope .whileDo c w = .value true w₁ →
      newScope scope w₁ = .value i w₂ →
      Part limits ⟨n, .loop scope c b (turns + 1), w⟩ ⟨n, .block i b, w₂⟩
  | nextTurn {n : Nat} {scope : ScopeId} {c : Expr} {b : Block} {turns : Nat} {v : Value}
      {w w₁ w₂ : World} :
      condition (invoke limits n) scope .whileDo c w = .value true w₁ →
      innerBlock (invoke limits n) limits.maxTurns scope b w₁ = .value (.next v) w₂ →
      Part limits ⟨n, .loop scope c b (turns + 1), w⟩ ⟨n, .loop scope c b turns, w₂⟩
  | firstStmt {n : Nat} {scope : ScopeId} {s : Stmt} {rest : Block} {w : World} :
      Part limits ⟨n, .block scope (s :: rest), w⟩ ⟨n, .stmt scope s, w⟩
  | laterStmts {n : Nat} {scope : ScopeId} {s : Stmt} {rest : Block} {v : Value} {w w' : World} :
      Eval.stmt (invoke limits n) limits.maxTurns scope s w = .value (.next v) w' →
      Part limits ⟨n, .block scope (s :: rest), w⟩ ⟨n, .block scope rest, w'⟩
  -- programs
  | programStmt {scope : ScopeId} {last : Value} {s : Stmt} {rest : Program} {w : World} :
      Part limits ⟨limits.maxDepth, .program scope last (s :: rest), w⟩
        ⟨limits.maxDepth, .stmt scope s, w⟩
  | programRest {scope : ScopeId} {last v : Value} {s : Stmt} {rest : Program} {w w' : World} :
      Eval.stmt (invoke limits limits.maxDepth) limits.maxTurns scope s w = .value (.next v) w' →
      Part limits ⟨limits.maxDepth, .program scope last (s :: rest), w⟩
        ⟨limits.maxDepth, .program scope (if leavesValue s then v else last) rest, w'⟩

/-- A run that begins with the stage `a` comes to the stage `b`. -/
def Reaches (limits : Limits) : Stage → Stage → Prop :=
  Relation.ReflTransGen (Part limits)

/-! ## What a task leaves -/

/-- How the task of a stage ends, with the values it leaves. -/
def Stage.outcome (limits : Limits) (a : Stage) : Outcome (List Value) :=
  let inv := invoke limits a.left
  match a.task with
  | .expr scope e => (Eval.expr inv scope e a.world).map ([·])
  | .exprs scope es => Eval.exprs inv scope es a.world
  | .plainExprs scope es => (Eval.plainExprs inv scope es a.world).map (List.map Prod.fst)
  | .call f args span => (inv f args span a.world).map ([·])
  | .bind scope bs =>
    (update (fun h => bs.foldl (fun h b => h.define scope b.1 (some b.2)) h) a.world).map fun _ => []
  | .stmt scope s => (Eval.stmt inv limits.maxTurns scope s a.world).map Flow.values
  | .block scope b => (Eval.block inv limits.maxTurns scope b a.world).map Flow.values
  | .loop scope c b turns =>
    (Eval.loop (condition inv scope .whileDo c) (innerBlock inv limits.maxTurns scope b) turns
      a.world).map Flow.values
  | .program scope last p => (programFrom limits scope last p a.world).map ([·])

/-- The scopes and values of a task are in the heap. -/
def Task.Fits (h : Heap) : Task → Prop
  | .expr scope _ => scope < h.scopes.size
  | .exprs scope _ => scope < h.scopes.size
  | .plainExprs scope _ => scope < h.scopes.size
  | .call f args _ => f.scope < h.scopes.size ∧ ∀ v ∈ args, v.LivesIn h
  | .bind scope bs => scope < h.scopes.size ∧ ∀ b ∈ bs, b.2.LivesIn h
  | .stmt scope _ => scope < h.scopes.size
  | .block scope _ => scope < h.scopes.size
  | .loop scope _ _ _ => scope < h.scopes.size
  | .program scope last _ => scope < h.scopes.size ∧ last.LivesIn h

/-- A task is begun in a well-formed heap that has all the task needs. -/
structure Stage.Fits (a : Stage) : Prop where
  wellFormed : a.world.heap.WellFormed
  task : a.task.Fits a.world.heap

section
variable {D : ScopeId → String → Prop} {inv : Invoke} {scope : ScopeId} {w : World}

theorem safe_plainExpr (hinv : SafeInvoke inv) (e : Expr) (hw : w.heap.WellFormed)
    (hs : scope < w.heap.scopes.size) :
    Safe D (plainExpr inv scope e) w (fun v h => v.LivesIn h) := by
  refine (safe_expr hinv e hw hs).bind fun v w₁ h₁ hv => ?_
  exact (safe_plain h₁.wellFormed hv e.span).mono fun _ _ hu => hu.1

theorem safe_innerBlock (hinv : SafeInvoke inv) (maxTurns : Nat) (b : Block)
    (hw : w.heap.WellFormed) (hs : scope < w.heap.scopes.size) :
    Safe D (innerBlock inv maxTurns scope b) w (fun flow h => flow.LivesIn h) := by
  refine safe_newScope_bind hw hs fun inner w₁ h₁ hinner => ?_
  exact safe_block hinv maxTurns b h₁.wellFormed hinner fun _ => rfl

theorem safe_enter (limits : Limits) (left : Nat) (f : Closure) (hw : w.heap.WellFormed)
    (hf : f.scope < w.heap.scopes.size) :
    Safe D (enter limits left f) w (fun i h => i < h.scopes.size) := by
  refine (safe_noteCall limits f _ hw).bind fun _ w₁ h₁ _ => ?_
  exact safe_newScope h₁.wellFormed (Nat.lt_of_lt_of_le hf h₁.grows.size_le)

theorem Safe.value {α : Type} {x : Eval α} {w' : World} {Q : α → Heap → Prop} {a : α}
    (h : Safe anywhere x w Q) (hx : x w = .value a w') : w.Leads anywhere w' ∧ Q a w'.heap := by
  unfold Safe at h
  rw [hx] at h
  exact h

/-- The values that a safe computation leaves live in the heap. -/
theorem Safe.map {α : Type} {x : Eval α} {Q : α → Heap → Prop} {f : α → List Value}
    (h : Safe anywhere x w Q) (hQ : ∀ a g, Q a g → ∀ v ∈ f a, v.LivesIn g) :
    ((x w).map f).Sat (fun vs w' => w.Leads anywhere w' ∧ ∀ v ∈ vs, v.LivesIn w'.heap)
      (fun _ w' => w.Leads anywhere w') := by
  unfold Safe at h
  cases hx : x w with
  | value a w' => rw [hx] at h; exact ⟨h.1, hQ a _ h.2⟩
  | fault e w' => rw [hx] at h; exact h
  | misuse m => rw [hx] at h; exact h
  | exhausted => trivial

end

/-- A task that is begun in a fitting world commits no misuse, and what it leaves is in the heap. -/
theorem Stage.Fits.outcome {a : Stage} (h : a.Fits) (limits : Limits) :
    (a.outcome limits).Sat (fun vs w' => a.world.Leads anywhere w' ∧ ∀ v ∈ vs, v.LivesIn w'.heap)
      (fun _ w' => a.world.Leads anywhere w') := by
  have hinv := safe_invoke limits a.left
  have one : ∀ (u : Value) (g : Heap), u.LivesIn g → ∀ v ∈ [u], v.LivesIn g :=
    fun u g hu v hv => by rw [List.mem_singleton.mp hv]; exact hu
  obtain ⟨left, t, w⟩ := a
  obtain ⟨hw, ht⟩ := h
  cases t with
  | expr scope e => exact (safe_expr hinv e hw ht).map one
  | exprs scope es => exact safe_exprs hinv es hw ht
  | plainExprs scope es =>
      refine (safe_plainExprs hinv es hw ht).map fun vs g hvs v hv => ?_
      obtain ⟨a, ha, rfl⟩ := List.mem_map.mp hv
      exact hvs a ha
  | call f args span => exact (hinv f args span w hw ht.1 ht.2).map one
  | bind scope bs =>
      obtain ⟨hw', hg⟩ := wellFormed_bindAll bs hw ht.1 ht.2
      exact ⟨⟨hw', hg, addsOnly_bindAll (fun _ => trivial) bs ht.1⟩, fun _ h => nomatch h⟩
  | stmt scope s =>
      exact (safe_stmt hinv limits.maxTurns s hw ht fun _ _ => trivial).map
        fun _ _ => Flow.LivesIn.values
  | block scope b =>
      exact (safe_block hinv limits.maxTurns b hw ht fun _ => trivial).map
        fun _ _ => Flow.LivesIn.values
  | loop scope c b turns =>
      refine (safe_loop turns hw (fun w₁ h₁ => ?_) (fun w₁ h₁ => ?_)).map
        fun _ _ => Flow.LivesIn.values
      · exact safe_condition hinv .whileDo c h₁.wellFormed (Nat.lt_of_lt_of_le ht h₁.grows.size_le)
      · exact safe_innerBlock hinv limits.maxTurns b h₁.wellFormed
          (Nat.lt_of_lt_of_le ht h₁.grows.size_le)
  | program scope last p => exact (safe_programFrom limits p hw ht.1 ht.2).map one

/-! ## From stage to stage -/

/-- A part of a fitting stage fits, and its heap has grown. -/
theorem Part.fits {limits : Limits} {a b : Stage} (h : Part limits a b) :
    a.Fits → a.world.Leads anywhere b.world ∧ b.Fits := by
  -- a part in the same scope, begun in a world that the parts before it lead to
  have later : ∀ {n : Nat} {t : ScopeId → Task} {scope : ScopeId} {w w' : World},
      (∀ i g, Task.Fits g (t i) = (i < g.scopes.size)) → w.Leads anywhere w' →
      scope < w.heap.scopes.size → w.Leads anywhere w' ∧ Stage.Fits ⟨n, t scope, w'⟩ :=
    fun ht hl hs => ⟨hl, hl.wellFormed, by
      rw [ht]
      exact Nat.lt_of_lt_of_le hs hl.grows.size_le⟩
  rintro ⟨hw, ht⟩
  cases h with
  | operand => exact ⟨.refl hw, hw, ht⟩
  | leftOperand => exact ⟨.refl hw, hw, ht⟩
  | @rightOperand n _ _ l r _ _ _ _ hl =>
      have h₁ := ((safe_plainExpr (safe_invoke limits n) l hw ht).value hl).1
      exact later (t := (.expr · r)) (fun _ _ => rfl) h₁ ht
  | assigned => exact ⟨.refl hw, hw, ht⟩
  | callee => exact ⟨.refl hw, hw, ht⟩
  | @callArgs n _ c args _ _ _ _ hc =>
      have h₁ := ((safe_plainExpr (safe_invoke limits n) c hw ht).value hc).1
      exact later (t := (.exprs · args)) (fun _ _ => rfl) h₁ ht
  | @called n _ c args _ _ _ _ _ _ hc hargs =>
      have hinv := safe_invoke limits n
      obtain ⟨h₁, hf⟩ := (safe_plainExpr hinv c hw ht).value hc
      have ht₁ := Nat.lt_of_lt_of_le ht h₁.grows.size_le
      obtain ⟨h₂, hvs⟩ := (safe_exprs hinv args h₁.wellFormed ht₁).value hargs
      exact ⟨h₁.trans h₂, h₂.wellFormed, hf.mono h₂.grows, hvs⟩
  | receiver => exact ⟨.refl hw, hw, ht⟩
  | @methodArgs n _ r _ args _ _ _ _ hr =>
      have h₁ := ((safe_plainExpr (safe_invoke limits n) r hw ht).value hr).1
      exact later (t := (.plainExprs · args)) (fun _ _ => rfl) h₁ ht
  | firstExpr => exact ⟨.refl hw, hw, ht⟩
  | @laterExprs n _ e es _ _ _ he =>
      have h₁ := ((safe_expr (safe_invoke limits n) e hw ht).value he).1
      exact later (t := (.exprs · es)) (fun _ _ => rfl) h₁ ht
  | firstPlain => exact ⟨.refl hw, hw, ht⟩
  | @laterPlain n _ e es _ _ _ he =>
      have h₁ := ((safe_plainExpr (safe_invoke limits n) e hw ht).value he).1
      exact later (t := (.plainExprs · es)) (fun _ _ => rfl) h₁ ht
  | @params n f args _ _ _ _ _ henter =>
      obtain ⟨h₁, hi⟩ := (safe_enter limits n f hw ht.1).value henter
      refine ⟨h₁, h₁.wellFormed, hi, fun b hb => ?_⟩
      exact (ht.2 b.2 (List.of_mem_zip hb).2).mono h₁.grows
  | @param n scope b bs _ _ hdef =>
      have hb := ht.2 b List.mem_cons_self
      have h₁ := ((safe_define hw ht.1 trivial hb).value hdef).1
      refine ⟨h₁, h₁.wellFormed, Nat.lt_of_lt_of_le ht.1 h₁.grows.size_le, fun c hc => ?_⟩
      exact (ht.2 c (List.mem_cons_of_mem _ hc)).mono h₁.grows
  | @body n f args _ _ _ _ _ _ henter hbind =>
      obtain ⟨h₁, hi⟩ := (safe_enter limits n f hw ht.1).value henter
      have hargs₁ : ∀ v ∈ args, v.LivesIn _ := fun v hv => (ht.2 v hv).mono h₁.grows
      obtain ⟨h₂, hi₂⟩ :=
        (safe_bindParams h₁.wellFormed hi (fun _ => trivial) f.params hargs₁).value hbind
      exact ⟨h₁.trans h₂, h₂.wellFormed, hi₂⟩
  | exprStmt => exact ⟨.refl hw, hw, ht⟩
  | letStmt => exact ⟨.refl hw, hw, ht⟩
  | returnStmt => exact ⟨.refl hw, hw, ht⟩
  | ifCondition => exact ⟨.refl hw, hw, ht⟩
  | @ifBody n _ _ c _ _ _ _ _ hc hnew =>
      have h₁ := ((safe_condition (safe_invoke limits n) .ifThen c hw ht).value hc).1
      have ht₁ := Nat.lt_of_lt_of_le ht h₁.grows.size_le
      obtain ⟨h₂, hi⟩ := (safe_newScope h₁.wellFormed ht₁).value hnew
      exact ⟨h₁.trans h₂, h₂.wellFormed, hi⟩
  | whileLoop => exact ⟨.refl hw, hw, ht⟩
  | turnCondition => exact ⟨.refl hw, hw, ht⟩
  | @turnBody n _ _ c _ _ _ _ _ hc hnew =>
      have h₁ := ((safe_condition (safe_invoke limits n) .whileDo c hw ht).value hc).1
      have ht₁ := Nat.lt_of_lt_of_le ht h₁.grows.size_le
      obtain ⟨h₂, hi⟩ := (safe_newScope h₁.wellFormed ht₁).value hnew
      exact ⟨h₁.trans h₂, h₂.wellFormed, hi⟩
  | @nextTurn n _ c b turns _ _ _ _ hc hb =>
      have hinv := safe_invoke limits n
      have h₁ := ((safe_condition hinv .whileDo c hw ht).value hc).1
      have ht₁ := Nat.lt_of_lt_of_le ht h₁.grows.size_le
      have h₂ := ((safe_innerBlock hinv limits.maxTurns b h₁.wellFormed ht₁).value hb).1
      exact later (t := (.loop · c b turns)) (fun _ _ => rfl) (h₁.trans h₂) ht
  | firstStmt => exact ⟨.refl hw, hw, ht⟩
  | @laterStmts n _ s rest _ _ _ hs =>
      have h₁ := ((safe_stmt (safe_invoke limits n) limits.maxTurns s hw ht
        fun _ _ => trivial).value hs).1
      exact later (t := (.block · rest)) (fun _ _ => rfl) h₁ ht
  | programStmt => exact ⟨.refl hw, hw, ht.1⟩
  | @programRest _ last _ s _ _ _ hs =>
      have hinv := safe_invoke limits limits.maxDepth
      obtain ⟨h₁, hv⟩ := (safe_stmt hinv limits.maxTurns s hw ht.1 fun _ _ => trivial).value hs
      refine ⟨h₁, h₁.wellFormed, Nat.lt_of_lt_of_le ht.1 h₁.grows.size_le, ?_⟩
      split
      · exact hv
      · exact ht.2.mono h₁.grows

/-- Every stage that a run comes to fits, if the first one does. -/
theorem Reaches.fits {limits : Limits} {a b : Stage} (h : Reaches limits a b) (ha : a.Fits) :
    a.world.Leads anywhere b.world ∧ b.Fits := by
  induction h with
  | refl => exact ⟨.refl ha.wellFormed, ha⟩
  | tail _ hpart ih =>
      obtain ⟨hl, hb⟩ := ih
      obtain ⟨hl', hc⟩ := hpart.fits hb
      exact ⟨hl.trans hl', hc⟩

end Eval

end HamScript
