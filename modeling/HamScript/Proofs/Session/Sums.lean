/-
# Adding to a name

`x.mut_sum(e)` and `x = x + e` are evaluated in two ways: the one by a method that finds out itself
what kind its argument has and which name its receiver designates, the other by an operator and an
assignment.

| `x.mut_sum(e)`                | `x = x + e`                      |
| :---------------------------- | :------------------------------- |
| reads `x`                     | reads `x`                        |
| reads the argument `e`        | reads the right operand `e`      |
| no number: a wrong argument   | no number: operands do not fit   |
| assigns the sum to `x`        | assigns the sum to `x`           |

Where `x` reads to a number they agree line by line, whatever `e` does in between: it may assign to
`x`, make it another name for something else, fail or go on for ever.  The same holds with `&x` in
place of `x`.  There is one difference between `x` and `&x`: from `&x` the chain is one hop longer, so
that a name whose chain is as long as can be read (`OnBrink`) is a broken pointer when it is read as
`&x`.  Then both forms fail before they come to `e`, even where `e` would go on for ever
(`ref_mutSum_ends_on_brink`).
-/
import HamScript.Proofs.Eval.Overflow
import HamScript.Proofs.Session.Aliases
import HamScript.Proofs.Session.Loops

namespace HamScript

open Source (Span)

/-- `r.mut_sum(e)` -/
def Expr.mutSum (r e : Expr) (name whole : Span) : Expr :=
  .method r ⟨"mut_sum", name⟩ [e] whole

/-- `x = r + e` -/
def Expr.addTo (x : Ident) (r e : Expr) (sum whole : Span) : Expr :=
  .assign x (.binary .add r e sum) whole

/-- The runs end alike: with the same value, with faults of the same class, or not at all; and they
leave the same world, its heap and all that has been printed. -/
inductive Outcome.Agrees {α : Type} : Outcome α → Outcome α → Prop
  | value (a : α) (w : World) : Agrees (.value a w) (.value a w)
  | fault {f g : RuntimeFault} (h : f.cause.faultClass = g.cause.faultClass) (w : World) :
      Agrees (.fault f w) (.fault g w)
  | exhausted : Agrees .exhausted .exhausted

/-- The chain of the name ends, and only just near enough for the name to be read: from a pointer to
the name it is too long. -/
def Heap.OnBrink (h : Heap) (scope : ScopeId) (name : String) : Prop :=
  ∃ slot last, h.pointer? scope name = some slot ∧ h.Chain maxHops slot last ∧ h.Rests last

/-- A name is on the brink if its chain is followed with one hop more than there may be. -/
theorem Heap.onBrink_of_follow {h : Heap} {i : ScopeId} {name : String} {slot last : Pointer}
    (hp : h.pointer? i name = some slot) (hfar : h.followFrom (maxHops + 1) slot = some last)
    (hnone : h.follow? slot = none) : h.OnBrink i name := by
  obtain ⟨hops, hlt, hchain, hrests⟩ := followFrom_eq_some_iff.mp hfar
  have hmost : hops = maxHops := by
    refine Nat.le_antisymm (Nat.le_of_lt_succ hlt) (Nat.le_of_not_lt fun hless => ?_)
    rw [follow?, followFrom_eq_some_iff.mpr ⟨hops, hless, hchain, hrests⟩] at hnone
    cases hnone
  exact ⟨slot, last, hp, hmost ▸ hchain, hrests⟩

namespace Eval

open Outcome (Agrees)

variable {inv : Invoke} {env : ScopeId} {w w' : World}

/-! ## One after the other -/

instance : LawfulMonad Eval :=
  LawfulMonad.mk' Eval
    (fun x => by
      funext w
      change Eval.bind x _ w = x w
      unfold Eval.bind
      cases x w <;> rfl)
    (fun _ _ => rfl)
    (fun x f g => by
      funext w
      change Eval.bind (Eval.bind x f) g w = Eval.bind x _ w
      simp only [Eval.bind]
      cases x w <;> rfl)

theorem bind_of_exhausted {α β : Type} {x : Eval α} {f : α → Eval β} (h : x w = .exhausted) :
    (x >>= f) w = .exhausted := by
  change Eval.bind x f w = .exhausted
  simp only [Eval.bind, h]

/-- Computations that agree, with continuations that agree. -/
theorem agrees_bind {α β : Type} {x y : Eval α} {f g : α → Eval β} (hxy : Agrees (x w) (y w))
    (hfg : ∀ a w', x w = .value a w' → Agrees (f a w') (g a w')) :
    Agrees ((x >>= f) w) ((y >>= g) w) := by
  cases hx : x w with
  | value a w' =>
      rw [hx] at hxy
      generalize hy : y w = o at hxy
      cases hxy
      rw [bind_of_value hx, bind_of_value hy]
      exact hfg a w' hx
  | fault e w' =>
      rw [hx] at hxy
      generalize hy : y w = o at hxy
      cases hxy with
      | fault hclass =>
          rw [bind_of_fault hx, bind_of_fault hy]
          exact .fault hclass w'
  | misuse m =>
      rw [hx] at hxy
      cases hxy
  | exhausted =>
      rw [hx] at hxy
      generalize hy : y w = o at hxy
      cases hxy
      rw [bind_of_exhausted hx, bind_of_exhausted hy]
      exact .exhausted

/-- A run without a misuse agrees with itself. -/
theorem Safe.agrees {α : Type} {D : ScopeId → String → Prop} {x : Eval α} {Q : α → Heap → Prop}
    (h : Safe D x w Q) : Agrees (x w) (x w) := by
  unfold Safe at h
  cases hx : x w with
  | value a w' => exact .value a w'
  | fault e w' => exact .fault rfl w'
  | misuse m =>
      rw [hx] at h
      cases h
  | exhausted => exact .exhausted

/-! ## The two forms -/

theorem expr_mutSum (r e : Expr) (name whole : Span) :
    expr inv env (r.mutSum e name whole) = (do
      let v ← plainExpr inv env r
      let u ← plainExpr inv env e
      callMethod env r.target? v ⟨"mut_sum", name⟩ [(u, e.span)] whole) := by
  simp only [Expr.mutSum, expr, plainExprs, plainExpr, bind_assoc, pure_bind]

theorem expr_addTo (x : Ident) (r e : Expr) (sum whole : Span) :
    expr inv env (.addTo x r e sum whole) = (do
      let v ← plainExpr inv env r
      let u ← plainExpr inv env e
      let total ← operate .add v u sum
      store env x.name total x.span
      return total) := by
  simp only [Expr.addTo, expr, plainExpr, bind_assoc]

/-- How an assignment ends does not depend on where the name stands. -/
theorem agrees_store (name : String) (v : Value) (s s' : Span) (w : World) :
    Agrees (store env name v s w) (store env name v s' w) := by
  unfold store
  rw [read_bind, read_bind]
  cases w.heap.pointer? env name with
  | none =>
      refine .fault ?_ w
      rfl
  | some slot =>
      dsimp only
      rw [read_bind, read_bind]
      cases w.heap.follow? slot with
      | none =>
          refine .fault ?_ w
          rfl
      | some last => exact .value () _

/-- Once both numbers are there, or something else in place of the second one. -/
theorem agrees_finish {x y : Ident} (hxy : y.name = x.name) (n : Number) (u : Value)
    (name argument sum whole : Span) (w : World) :
    Agrees (callMethod env (some x) (.number n) ⟨"mut_sum", name⟩ [(u, argument)] whole w)
      ((do
        let total ← operate .add (.number n) u sum
        store env y.name total y.span
        return total : Eval Value) w) := by
  rw [hxy]
  cases u with
  | number b =>
      exact agrees_bind (agrees_store x.name (.number (n.add b)) x.span y.span w)
        fun _ w' _ => .value _ w'
  | string | bool | unit | pointer | function | builtin =>
      refine .fault ?_ w
      rfl

/-- The two forms agree where their receivers read to the same number. -/
theorem agrees_of_numbers {limits : Limits} {left : Nat} {r r' e : Expr} {x y : Ident} {n : Number}
    (hw : w.heap.WellFormed) (henv : env < w.heap.scopes.size)
    (hr : plainExpr (invoke limits left) env r w = .value (.number n) w)
    (hr' : plainExpr (invoke limits left) env r' w = .value (.number n) w)
    (htarget : r.target? = some x) (hxy : y.name = x.name) (name sum whole whole' : Span) :
    Agrees (expr (invoke limits left) env (r.mutSum e name whole) w)
      (expr (invoke limits left) env (.addTo y r' e sum whole') w) := by
  rw [expr_mutSum, expr_addTo, htarget, bind_of_value hr, bind_of_value hr']
  have hsafe := safe_plainExpr (D := fun _ _ => True) (safe_invoke limits left) e hw henv
  exact agrees_bind hsafe.agrees fun u w₁ _ => agrees_finish hxy n u name e.span sum whole w₁

/-- If the argument does not come to an end, the two forms do not. -/
theorem exhausted_of_argument {r r' e : Expr} {v : Value}
    (hr : plainExpr inv env r w = .value v w) (hr' : plainExpr inv env r' w = .value v w)
    (he : expr inv env e w = .exhausted) (x : Ident) (name sum whole whole' : Span) :
    expr inv env (r.mutSum e name whole) w = .exhausted ∧
      expr inv env (.addTo x r' e sum whole') w = .exhausted := by
  have hargument : plainExpr inv env e w = .exhausted := by rw [plainExpr, bind_of_exhausted he]
  constructor
  · rw [expr_mutSum, bind_of_value hr, bind_of_exhausted hargument]
  · rw [expr_addTo, bind_of_value hr', bind_of_exhausted hargument]

/-! ## The receiver -/

theorem plainExpr_ref_of_pointer {x : Ident} {slot : Pointer}
    (hp : w.heap.pointer? env x.name = some slot) (span : Span) :
    plainExpr inv env (.ref x span) w = plain (.pointer slot) span w := by
  have href : expr inv env (.ref x span) w = .value (.pointer slot) w := by
    rw [expr, reference, read_bind, hp]
    rfl
  rw [plainExpr, bind_of_value href]
  rfl

/-- What `&x` reads to, if `x` reads to `v`: the same, or nothing because it is one hop too far. -/
theorem plainExpr_ref_cases {x : Ident} {v : Value} (hw : w.heap.WellFormed)
    (hx : plainExpr inv env (.var x) w = .value v w) :
    (¬ w.heap.OnBrink env x.name ∧ ∀ y : Ident, y.name = x.name → ∀ span,
      plainExpr inv env (.ref y span) w = .value v w) ∨
    (w.heap.OnBrink env x.name ∧ ∃ name, ∀ y : Ident, y.name = x.name → ∀ span,
      plainExpr inv env (.ref y span) w = .fault ⟨.circularPointer name, span⟩ w) := by
  obtain ⟨last, ⟨slot, hslot, n, hn, hchain, hrest⟩, hv⟩ := exists_nameResolves_of_value hw hx
  rcases Nat.lt_or_eq_of_le (Nat.le_of_lt_succ hn) with hnear | rfl
  · refine .inl ⟨?_, fun y hy span => ?_⟩
    · rintro ⟨slot', last', hslot', hchain', -⟩
      cases hslot.symm.trans hslot'
      exact absurd (hchain.le_of_rests hrest hchain') (Nat.not_le.mpr hnear)
    · rw [plainExpr_ref_of_pointer (hy ▸ hslot),
        plain_pointer_of_resolves ⟨n, hnear, hchain, hrest⟩, hv]
      rfl
  · refine .inr ⟨⟨slot, last, hslot, hchain, hrest⟩, slot.name, fun y hy span => ?_⟩
    rw [plainExpr_ref_of_pointer (hy ▸ hslot)]
    refine plain_pointer_of_not_resolves ?_ span
    rintro last' ⟨n, hn, hchain', hrest'⟩
    exact absurd (hchain'.le_of_rests hrest' hchain) (Nat.not_le.mpr hn)

/-- On the brink both forms of `&x` fail before the argument is evaluated. -/
theorem ref_forms_of_onBrink {x y z : Ident} {v : Value} (hw : w.heap.WellFormed)
    (hx : plainExpr inv env (.var x) w = .value v w) (hz : z.name = x.name)
    (hbrink : w.heap.OnBrink env x.name) (e : Expr)
    (name sum whole whole' reference reference' : Span) :
    ∃ f g, f.cause.faultClass = .brokenPointer ∧ g.cause.faultClass = .brokenPointer ∧
      expr inv env (.mutSum (.ref x reference) e name whole) w = .fault f w ∧
      expr inv env (.addTo y (.ref z reference') e sum whole') w = .fault g w := by
  rcases plainExpr_ref_cases hw hx with ⟨hnear, -⟩ | ⟨-, slot, href⟩
  · exact absurd hbrink hnear
  · refine ⟨⟨.circularPointer slot, reference⟩, ⟨.circularPointer slot, reference'⟩, rfl, rfl,
      ?_, ?_⟩
    · rw [expr_mutSum, bind_of_fault (href x rfl reference)]
    · rw [expr_addTo, bind_of_fault (href z hz reference')]

/-- A name reads to its value wherever it stands. -/
theorem plainExpr_var_elsewhere {x y : Ident} {v : Value} (hw : w.heap.WellFormed)
    (hx : plainExpr inv env (.var x) w = .value v w) (hy : y.name = x.name) :
    plainExpr inv env (.var y) w = .value v w := by
  obtain ⟨last, hlast, hv⟩ := exists_nameResolves_of_value hw hx
  exact plainExpr_var_of_nameResolves (hy ▸ hlast) hv

end Eval

open Eval Outcome

/-- **Adding to a name is assigning a sum.**  In a heap that a session comes to, let `x` read to a
number.  Then `x.mut_sum(e)` and `x = x + e` end alike, for every expression `e` and wherever all the
parts stand: with the same world, and the same value or faults of the same class; and so do
`&x.mut_sum(e)` and `&x = &x + e`.  If `e` does not come to an end, none of them does, except that
`&x` may be a broken pointer in itself; this is so exactly if `x` is on the brink, and then the last
two forms fail before `e` is evaluated. -/
theorem mutSum_agrees_addTo {w : World} (hw : w.heap.Reached) (limits : Limits) (left : Nat)
    {env : ScopeId} (henv : env < w.heap.scopes.size) {x y z : Ident} (hy : y.name = x.name)
    (hz : z.name = x.name) {n : Number}
    (hx : plainExpr (invoke limits left) env (.var x) w = .value (.number n) w)
    (e : Expr) (name sum whole whole' reference reference' : Span) :
    Agrees (expr (invoke limits left) env (.mutSum (.var x) e name whole) w)
      (expr (invoke limits left) env (.addTo y (.var z) e sum whole') w) ∧
    Agrees (expr (invoke limits left) env (.mutSum (.ref x reference) e name whole) w)
      (expr (invoke limits left) env (.addTo y (.ref z reference') e sum whole') w) ∧
    (expr (invoke limits left) env e w = .exhausted →
      expr (invoke limits left) env (.mutSum (.var x) e name whole) w = .exhausted ∧
      expr (invoke limits left) env (.addTo y (.var z) e sum whole') w = .exhausted ∧
      (¬ w.heap.OnBrink env x.name →
        expr (invoke limits left) env (.mutSum (.ref x reference) e name whole) w = .exhausted ∧
        expr (invoke limits left) env (.addTo y (.ref z reference') e sum whole') w =
          .exhausted)) ∧
    (w.heap.OnBrink env x.name →
      ∃ f g, f.cause.faultClass = .brokenPointer ∧ g.cause.faultClass = .brokenPointer ∧
        expr (invoke limits left) env (.mutSum (.ref x reference) e name whole) w = .fault f w ∧
        expr (invoke limits left) env (.addTo y (.ref z reference') e sum whole') w =
          .fault g w) := by
  have hwf := hw.wellFormed
  have hxz := plainExpr_var_elsewhere hwf hx hz
  have hvar := agrees_of_numbers (e := e) hwf henv hx hxz rfl hy name sum whole whole'
  have hendless := fun he => exhausted_of_argument (e := e) hx hxz he y name sum whole whole'
  have hbroken := fun hbrink => ref_forms_of_onBrink (y := y) hwf hx hz hbrink e name sum whole
    whole' reference reference'
  rcases plainExpr_ref_cases hwf hx with ⟨hbrink, href⟩ | ⟨hbrink, -⟩
  · -- both `&x` read to the number, too
    have hrefx := href x rfl reference
    have hrefz := href z hz reference'
    refine ⟨hvar, agrees_of_numbers hwf henv hrefx hrefz rfl hy _ _ _ _, fun he => ?_, hbroken⟩
    obtain ⟨hmethod, hassign⟩ := hendless he
    exact ⟨hmethod, hassign, fun _ => exhausted_of_argument hrefx hrefz he y _ _ _ _⟩
  · obtain ⟨f, g, hf, hg, hmethod, hassign⟩ := hbroken hbrink
    refine ⟨hvar, ?_, fun he => ?_, hbroken⟩
    · rw [hmethod, hassign]
      exact .fault (hf.trans hg.symm) w
    · obtain ⟨hmethod, hassign⟩ := hendless he
      exact ⟨hmethod, hassign, fun h => absurd hbrink h⟩

/-- Where `x` is another name for `y`, which holds 5: both `x.mut_sum(x = 7)` and `x = x + (x = 7)`
leave 12 in `y`, since `x` is read before the 7 is assigned. -/
theorem mutSum_agrees_addTo_aliased :
    let inv := invoke ⟨10, 10, false⟩ 10
    let x : Ident := ⟨"x", default⟩
    let seven : Expr := .assign x (.int 7 default) default
    aliased.heap.Reached ∧ Session.globals < aliased.heap.scopes.size ∧
    plainExpr inv Session.globals (.var x) aliased = .value (.number (.int 5)) aliased ∧
    Agrees (expr inv Session.globals (.mutSum (.var x) seven default default) aliased)
      (expr inv Session.globals (.addTo x (.var x) seven default default) aliased) ∧
    expr inv Session.globals (.mutSum (.var x) seven default default) aliased =
      .value (.number (.int 12))
        (aliased.stored ⟨Session.globals, "y"⟩ (.number (.int 12))) := by
  intro inv x seven
  have hx : plainExpr inv Session.globals (.var x) aliased =
      .value (.number (.int 5)) aliased := rfl
  have hagree := (mutSum_agrees_addTo (w := aliased) reached_aliasedHeap ⟨10, 10, false⟩ 10
    (by decide) (y := x) (z := x) rfl rfl hx seven default default default default default
    default).1
  exact ⟨reached_aliasedHeap, by decide, hx, hagree, rfl⟩

/-! ## An argument that is not evaluated -/

/-- A loop whose condition always holds and whose body always goes on takes every turn it may. -/
theorem Eval.loop_of_endless {condition : Eval Bool} {body : Eval Flow}
    (hcondition : ∀ w, condition w = .value true w)
    (hbody : ∀ w, ∃ v w', body w = .value (.next v) w') (turns : Nat) (w : World) :
    loop condition body turns w = .exhausted := by
  induction turns generalizing w with
  | zero => rfl
  | succ turns ih =>
      obtain ⟨v, w', hnext⟩ := hbody w
      rw [loop, bind_of_value (hcondition w), if_pos rfl, bind_of_value hnext]
      exact ih w'

/-- `fn(){while true{}}()` -/
def Expr.spin : Expr :=
  .call (.fn [] [.whileDo (.bool true default) [] default] default) [] default

/-- It does not come to an end, wherever one more call may become active. -/
theorem Eval.expr_spin (maxDepth maxTurns left : Nat) (env : ScopeId) (w : World) :
    expr (invoke ⟨maxDepth, maxTurns, false⟩ (left + 1)) env .spin w = .exhausted := by
  have hloop : ∀ inv scope w, stmt inv maxTurns scope
      (.whileDo (.bool true default) [] default) w = .exhausted := by
    intro inv scope w
    rw [stmt]
    exact loop_of_endless (fun _ => rfl) (fun _ => ⟨_, _, rfl⟩) maxTurns w
  have hblock : ∀ inv scope w, block inv maxTurns scope
      [.whileDo (.bool true default) [] default] w = .exhausted := by
    intro inv scope w
    rw [block, bind_of_exhausted (hloop inv scope w)]
  have hbody : ∀ inv (f : Closure) w, f.body = [.whileDo (.bool true default) [] default] →
      Eval.body inv maxTurns f [] w = .exhausted := by
    intro inv f w hf
    have hscope : ∃ i w', newScope f.scope w = .value i w' := ⟨_, _, rfl⟩
    obtain ⟨i, w', hscope⟩ := hscope
    have hbind : ∃ w'', bindParams i f.params [] w' = .value () w'' := ⟨_, rfl⟩
    obtain ⟨w'', hbind⟩ := hbind
    rw [Eval.body, bind_of_value hscope, bind_of_value hbind, hf,
      bind_of_exhausted (hblock inv i w'')]
  exact hbody _ _ w rfl

/-- A function that calls itself `n` times, each time with a pointer to its own parameter, and adds
to the last one; the sum is to be with what never comes. -/
def brink : List Source.Glyph :=
  Source.Glyph.ofText
    ("fn f(p,n)\x7bif n==0\x7breturn &p.mut_sum(fn()\x7bwhile true\x7b\x7d\x7d())\x7d" ++
      "return f(&p,n-1)\x7d\nf(1,64)")

/-- The run of it.  No turn of the loop is needed: it is not come to. -/
def brinkStep : Step :=
  (Session.start ⟨"brink.ham", 100⟩).evaluate 0 brink

/-- The heap that it leaves. -/
def brinkHeap : Heap :=
  brinkStep.session.heap

/-- The world with it. -/
def brinkWorld : World :=
  ⟨brinkHeap, "", []⟩

/-- The run fails.  In the scope of the last call's branch the parameter leads, in as many hops as
can be followed from a name, to the parameter of the first call, which holds a number. -/
theorem brinkStep_eq :
    brinkStep.result.class? = some .brokenPointer ∧
    66 < brinkHeap.scopes.size ∧
    brinkHeap.pointer? 66 "p" = some ⟨65, "p"⟩ ∧
    brinkHeap.followFrom (Heap.maxHops + 1) ⟨65, "p"⟩ = some ⟨1, "p"⟩ ∧
    brinkHeap.follow? ⟨65, "p"⟩ = none ∧
    (brinkHeap.load ⟨1, "p"⟩).map Value.kind = some .number := by
  decide +kernel

theorem reached_brinkHeap : brinkHeap.Reached :=
  Session.reached_of_class (.start _) rfl brinkStep_eq.1

/-- Where the parameter of the last call is on the brink and can be read, and an argument does not
come to an end under any bound, adding it to `&p` comes to an end all the same, in both forms. -/
theorem ref_mutSum_ends_on_brink :
    let p : Ident := ⟨"p", default⟩
    brinkStep.result.class? = some .brokenPointer ∧ brinkHeap.Reached ∧
    66 < brinkHeap.scopes.size ∧ brinkHeap.OnBrink 66 "p" ∧
    ∀ maxDepth maxTurns left,
      let inv := invoke ⟨maxDepth, maxTurns, false⟩ (left + 1)
      (∃ n, plainExpr inv 66 (.var p) brinkWorld = .value (.number n) brinkWorld) ∧
      expr inv 66 .spin brinkWorld = .exhausted ∧
      (∃ f, f.cause.faultClass = .brokenPointer ∧
        expr inv 66 (.mutSum (.ref p default) .spin default default) brinkWorld =
          .fault f brinkWorld) ∧
      ∃ g, g.cause.faultClass = .brokenPointer ∧
        expr inv 66 (.addTo p (.ref p default) .spin default default) brinkWorld =
          .fault g brinkWorld := by
  intro p
  obtain ⟨hclass, hscope, hpointer, hfar, hnone, hkind⟩ := brinkStep_eq
  have hreached := reached_brinkHeap
  have hheap : brinkWorld.heap = brinkHeap := by rw [brinkWorld]
  -- From here on nothing is computed in the heap, only what is known of it is used.
  generalize brinkHeap = h at *
  generalize brinkWorld = w at hheap ⊢
  subst hheap
  obtain ⟨v, hv, hkind⟩ := Option.map_eq_some_iff.mp hkind
  obtain ⟨n, rfl⟩ : ∃ n, v = .number n := by
    cases v with
    | number n => exact ⟨n, rfl⟩
    | string | bool | unit | function | builtin | pointer => cases hkind
  have hbrink := Heap.onBrink_of_follow hpointer hfar hnone
  refine ⟨hclass, hreached, hscope, hbrink, fun maxDepth maxTurns left => ?_⟩
  have hx : ∀ inv, plainExpr inv 66 (.var p) w = .value (.number n) w := fun inv =>
    plainExpr_var_of_nameResolves ⟨_, hpointer, Heap.followFrom_eq_some_iff.mp hfar⟩ hv
  obtain ⟨f, g, hf, hg, hmethod, hassign⟩ := ref_forms_of_onBrink (y := p) (z := p)
    hreached.wellFormed (hx (invoke ⟨maxDepth, maxTurns, false⟩ (left + 1))) rfl hbrink
    .spin default default default default default default
  exact ⟨⟨n, hx _⟩, expr_spin maxDepth maxTurns left 66 w, ⟨f, hf, hmethod⟩, g, hg, hassign⟩

end HamScript
