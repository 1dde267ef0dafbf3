/-
# Scopes grow by declarations

A scope gets a name when a `let` or a named function is run in it, and in no other way.  An
expression can do much to the heap: it calls functions, and their bodies make scopes, declare names
in them and assign to names of any scope, through pointers too.  But the scopes that were there
before it keep their names and their parents.  The same holds of `if` and `while`, since their
bodies have scopes of their own.

| run in the scope `env`    | names that scopes of before may get  |
| :------------------------ | :----------------------------------- |
| an expression             | none                                 |
| `if`, `while`             | none                                 |
| `let x = e`, `fn x(..){}` | `x`, in `env`                        |

What is bound to the names may change with an expression, and not with the declaration itself, but
for the name that it declares.
-/
import HamScript.Proofs.Session.Ends

namespace HamScript

open Source (Span)

/-- The world that is left, with a value or with a fault. -/
def Outcome.world? {α : Type} : Outcome α → Option World
  | .value _ w => some w
  | .fault _ w => some w
  | .misuse _ => none
  | .exhausted => none

namespace Heap

/-- The scopes of `h` are in `h'` with their parents and their names, and have no other names but
those of which `D` holds. -/
structure Frame (D : ScopeId → String → Prop) (h h' : Heap) : Prop where
  size_le : h.scopes.size ≤ h'.scopes.size
  parent_eq : ∀ i, i < h.scopes.size → h'.parent? i = h.parent? i
  kept : ∀ i m, i < h.scopes.size → m ∈ h.names i → m ∈ h'.names i
  added : ∀ i m, i < h.scopes.size → m ∈ h'.names i → m ∈ h.names i ∨ D i m

/-- The heap is one that a session comes to: it is there at a stage of the run of some source. -/
def Reached (h : Heap) : Prop :=
  ∃ (s : Session) (maxTurns : Nat) (source : List Source.Glyph) (b : Eval.Stage),
    s.Reachable ∧ s.Reaches maxTurns source b ∧ b.world.heap = h

theorem Reached.wellFormed {h : Heap} (hh : h.Reached) : h.WellFormed := by
  obtain ⟨s, maxTurns, source, b, hs, ⟨p, -, hb⟩, rfl⟩ := hh
  obtain ⟨-, hfits⟩ := Eval.Reaches.fits hb (hs.ready.fits p)
  exact hfits.wellFormed

end Heap

theorem World.Leads.frame {D : ScopeId → String → Prop} {w w' : World} (h : w.Leads D w') :
    w.heap.Frame D w'.heap where
  size_le := h.grows.size_le
  parent_eq := h.grows.parent_eq
  kept i m _ hm := by
    rw [Heap.mem_names_iff] at hm ⊢
    exact h.grows.bound i m hm
  added i m hi hm := by
    rw [Heap.mem_names_iff] at hm ⊢
    exact h.adds i m hi hm

namespace Eval

variable {D : ScopeId → String → Prop} {w w' : World}

theorem Safe.leads {α : Type} {x : Eval α} {Q : α → Heap → Prop} (h : Safe D x w Q)
    (hx : (x w).world? = some w') : w.Leads D w' := by
  unfold Safe at h
  cases hxw : x w with
  | value a w₁ =>
      rw [hxw] at h hx
      cases hx
      exact h.1
  | fault f w₁ =>
      rw [hxw] at h hx
      cases hx
      exact h
  | misuse m => rw [hxw] at hx; cases hx
  | exhausted => rw [hxw] at hx; cases hx

variable {limits : Limits} {left : Nat} {env : ScopeId}

theorem leads_expr (hw : w.heap.WellFormed) (henv : env < w.heap.scopes.size) {e : Expr}
    (h : (expr (invoke limits left) env e w).world? = some w') : w.Leads D w' :=
  (safe_expr (safe_invoke limits left) e hw henv).leads h

theorem leads_stmt (hw : w.heap.WellFormed) (henv : env < w.heap.scopes.size) {s : Stmt}
    (hD : ∀ m, s.declared? = some m → D env m)
    (h : (stmt (invoke limits left) limits.maxTurns env s w).world? = some w') : w.Leads D w' :=
  (safe_stmt (safe_invoke limits left) limits.maxTurns s hw henv hD).leads h

/-- A `let` is the evaluation of its right-hand side and, if that leaves a value, one binding. -/
theorem world?_letIn {inv : Invoke} {maxTurns : Nat} {x : Ident} {e : Expr} {span : Span}
    (h : (stmt inv maxTurns env (.letIn x e span) w).world? = some w') :
    (∃ v w₁, expr inv env e w = .value v w₁ ∧ w'.heap = w₁.heap.define env x.name (some v)) ∨
    ∃ f, expr inv env e w = .fault f w' := by
  rw [stmt] at h
  change Outcome.world? (Eval.bind (expr inv env e) _ w) = some w' at h
  unfold Eval.bind at h
  cases he : expr inv env e w with
  | value v w₁ =>
      rw [he] at h
      cases h
      exact .inl ⟨v, w₁, rfl, rfl⟩
  | fault f w₁ =>
      rw [he] at h
      cases h
      exact .inr ⟨f, rfl⟩
  | misuse m => rw [he] at h; cases h
  | exhausted => rw [he] at h; cases h

end Eval

/-- What a declaration of `n` in `env` does to the bindings of `h`: the name gets the value, and
nothing else changes. -/
structure Heap.Binding (env : ScopeId) (n : String) (v : Value) (h h' : Heap) : Prop where
  bound : h'.find? env n = some (some v)
  others : ∀ i m, i ≠ env ∨ m ≠ n → h'.find? i m = h.find? i m

theorem Heap.binding_define {h : Heap} {env : ScopeId} (henv : env < h.scopes.size) (n : String)
    (v : Value) : h.Binding env n v (h.define env n (some v)) where
  bound := by rw [find?_define henv, if_pos ⟨rfl, rfl⟩]
  others i m hne := by
    rw [find?_define henv, if_neg]
    rintro ⟨rfl, rfl⟩
    exact hne.elim (fun h => h rfl) (fun h => h rfl)

/-- **Scopes grow by declarations.**  Let a task be run in a scope `env` of a heap that a session
comes to.  If it is an expression, an `if` or a `while`, then all scopes of that heap keep their
parents and their names, whether it ends with a value or with a fault.  If it declares a name, then
they do so too, but `env` may have got the name; and of all bindings only this one is not as the
evaluation of the right-hand side has left it. -/
theorem scopes_grow_by_declarations {h : Heap} (hh : h.Reached) {env : ScopeId}
    (henv : env < h.scopes.size) (limits : Limits) (left : Nat) {w : World} (hw : w.heap = h) :
    let inv := Eval.invoke limits left
    let run := fun s => (Eval.stmt inv limits.maxTurns env s w).world?
    (∀ e w', (Eval.expr inv env e w).world? = some w' → h.Frame (fun _ _ => False) w'.heap) ∧
    (∀ c b span w', run (.ifThen c b span) = some w' → h.Frame (fun _ _ => False) w'.heap) ∧
    (∀ c b span w', run (.whileDo c b span) = some w' → h.Frame (fun _ _ => False) w'.heap) ∧
    (∀ x e span w', run (.letIn x e span) = some w' →
      h.Frame (fun i m => i = env ∧ m = x.name) w'.heap ∧
      ((∃ v w₁, Eval.expr inv env e w = .value v w₁ ∧ w₁.heap.Binding env x.name v w'.heap) ∨
        ∃ f, Eval.expr inv env e w = .fault f w')) ∧
    (∀ x params b span w', run (.fnDecl x params b span) = some w' →
      h.Frame (fun i m => i = env ∧ m = x.name) w'.heap ∧
      h.Binding env x.name (.function ⟨some x.name, params.map Ident.name, b, env⟩) w'.heap) := by
  subst hw
  have hwf := hh.wellFormed
  intro inv run
  refine ⟨?_, ?_, ?_, ?_, ?_⟩
  · intro e w' he
    exact (Eval.leads_expr hwf henv he).frame
  · intro c b span w' hs
    exact (Eval.leads_stmt hwf henv (fun _ hm => nomatch hm) hs).frame
  · intro c b span w' hs
    exact (Eval.leads_stmt hwf henv (fun _ hm => nomatch hm) hs).frame
  · intro x e span w' hs
    have hD : ∀ m, (Stmt.letIn x e span).declared? = some m → env = env ∧ m = x.name :=
      fun m hm => ⟨rfl, (Option.some.inj hm).symm⟩
    refine ⟨(Eval.leads_stmt (D := fun i m => i = env ∧ m = x.name) hwf henv hD hs).frame, ?_⟩
    refine (Eval.world?_letIn hs).imp_left ?_
    rintro ⟨v, w₁, he, hheap⟩
    have hle := (Eval.leads_expr (D := fun _ _ => False) hwf henv
      (congrArg Outcome.world? he)).grows.size_le
    refine ⟨v, w₁, he, ?_⟩
    rw [hheap]
    exact Heap.binding_define (Nat.lt_of_lt_of_le henv hle) x.name v
  · intro x params b span w' hs
    have hD : ∀ m, (Stmt.fnDecl x params b span).declared? = some m → env = env ∧ m = x.name :=
      fun m hm => ⟨rfl, (Option.some.inj hm).symm⟩
    refine ⟨(Eval.leads_stmt (D := fun i m => i = env ∧ m = x.name) hwf henv hD hs).frame, ?_⟩
    cases hs
    exact Heap.binding_define henv x.name _

/-- A call of a function that declares a name and assigns to a name of the outermost scope. -/
def busy : Expr :=
  .call (.fn [] [.letIn ⟨"y", default⟩ (.int 1 default) default,
    .expr (.assign ⟨"print", default⟩ (.int 2 default) default) default] default) [] default

theorem scopes_grow_by_declarations_busy :
    let run := Eval.invoke ⟨10, 10, false⟩ 10
    let w : World := ⟨Session.initialHeap, "", []⟩
    w.heap.Reached ∧ Session.globals < w.heap.scopes.size ∧
    (∃ w₁, (Eval.expr run Session.globals busy w).world? = some w₁ ∧
      w.heap.Frame (fun _ _ => False) w₁.heap) ∧
    ∃ w₂, (Eval.stmt run 10 Session.globals (.letIn ⟨"x", default⟩ busy default) w).world? =
        some w₂ ∧
      w.heap.Frame (fun i m => i = Session.globals ∧ m = "x") w₂.heap := by
  intro run w
  have hreached : w.heap.Reached :=
    ⟨.start ⟨"busy.ham", 10⟩, 10, [], _, .start _, ⟨[], rfl, .refl⟩, rfl⟩
  have hglobals : Session.globals < w.heap.scopes.size := Nat.zero_lt_one
  obtain ⟨hexpr, -, -, hlet, -⟩ :=
    scopes_grow_by_declarations hreached hglobals ⟨10, 10, false⟩ 10 rfl
  exact ⟨hreached, hglobals, ⟨_, rfl, hexpr busy _ rfl⟩,
    ⟨_, rfl, (hlet ⟨"x", default⟩ busy default _ rfl).1⟩⟩

end HamScript
