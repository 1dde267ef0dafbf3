/-
# Running keeps the promises

`Safe D x w Q` says of the computation `x`, run in the world `w`:

* it does not end in a misuse;
* the heap it leaves, with a value or with a fault, is well formed and has grown from the one of
  `w`, and the scopes that were there have got no names but those of which `D` holds;
* if it leaves a value, `Q` holds of the value and that heap.

A run that is cut off, because a loop reached its bound, satisfies all of this: there is no world
to speak of.  Safety of the evaluator is proved from the bottom up, one lemma for each of its
functions, and in each proof the cases are those of the function.  The lemmas on expressions hold for
every `D`, so for the one that holds of nothing.  Those on statements ask for the name that the
statement declares.

    values that are read live in the heap     (`safe_lookup`, `safe_plain`, `safe_reference`)
    a store goes to a binding that exists     (`safe_store`)
    builtins get as many values as they read  (`safe_callBuiltin`)
    an integer is divided by a non-zero one   (`safe_divide`)
    expressions and statements                (`safe_expr`, `safe_stmt`)
    calls and programs                        (`safe_invoke`, `safe_program`)
-/
import HamScript.Eval.Stmt
import HamScript.Proofs.Heap.WellFormed

namespace HamScript

open Source (Span)

/-- `V` holds of the value and the world that are left, or `F` of the fault and the world.  A misuse
satisfies nothing, and a run that is cut off everything. -/
def Outcome.Sat {α : Type} (V : α → World → Prop) (F : RuntimeFault → World → Prop) :
    Outcome α → Prop
  | .value a w => V a w
  | .fault f w => F f w
  | .misuse _ => False
  | .exhausted => True

/-- `w'` may come after `w`: its heap is well formed and has all that the heap of `w` has, and names
have been added to the scopes of `w` only where `D` allows it. -/
structure World.Leads (D : ScopeId → String → Prop) (w w' : World) : Prop where
  wellFormed : w'.heap.WellFormed
  grows : w.heap.Grows w'.heap
  adds : w.heap.AddsOnly D w'.heap

section
variable {D : ScopeId → String → Prop} {w₁ w₂ w₃ : World}

/-- Only the heap counts. -/
theorem World.Leads.of_heap_eq (hw : w₁.heap.WellFormed) (h : w₂.heap = w₁.heap) :
    w₁.Leads D w₂ := by
  constructor
  · rw [h]; exact hw
  · rw [h]; exact .refl _
  · rw [h]; exact Heap.addsOnly_refl _

theorem World.Leads.refl (hw : w₁.heap.WellFormed) : w₁.Leads D w₁ :=
  .of_heap_eq hw rfl

theorem World.Leads.trans (h : w₁.Leads D w₂) (h' : w₂.Leads D w₃) : w₁.Leads D w₃ :=
  ⟨h'.wellFormed, h.grows.trans h'.grows, h.adds.trans h.grows.size_le h'.adds⟩

/-- Names that are added to a new scope are not added to one that was there. -/
theorem World.Leads.trans_fresh {i : ScopeId} (h : w₁.Leads D w₂)
    (hi : w₁.heap.scopes.size ≤ i) (h' : w₂.Leads (fun j _ => j = i) w₃) : w₁.Leads D w₃ := by
  refine ⟨h'.wellFormed, h.grows.trans h'.grows, ?_⟩
  intro j m hj hb
  rcases h'.adds j m (Nat.lt_of_lt_of_le hj h.grows.size_le) hb with hb | hji
  · exact h.adds j m hj hb
  · exact absurd (hji ▸ hj) (Nat.not_lt.mpr hi)

end

namespace Eval

/-- Run in `w`, the computation commits no misuse and leaves a well-formed heap that has grown, by
names of which `D` holds; `Q` holds of the value it leaves. -/
def Safe {α : Type} (D : ScopeId → String → Prop) (x : Eval α) (w : World) (Q : α → Heap → Prop) :
    Prop :=
  (x w).Sat (fun a w' => w.Leads D w' ∧ Q a w'.heap) (fun _ w' => w.Leads D w')

variable {D : ScopeId → String → Prop}

section
variable {α β : Type} {w : World} {Q : α → Heap → Prop} {R : β → Heap → Prop}

/-! ## Steps -/

theorem Safe.mono {x : Eval α} {Q' : α → Heap → Prop} (h : Safe D x w Q)
    (hQ : ∀ a g, Q a g → Q' a g) : Safe D x w Q' := by
  unfold Safe at h ⊢
  cases hx : x w with
  | value a w' => rw [hx] at h; exact ⟨h.1, hQ a _ h.2⟩
  | fault f w' => rw [hx] at h; exact h
  | misuse m => rw [hx] at h; exact h
  | exhausted => trivial

/-- One computation after another.  The second starts in a world that the first leads to. -/
theorem Safe.bind {x : Eval α} {f : α → Eval β} (hx : Safe D x w Q)
    (hf : ∀ a w', w.Leads D w' → Q a w'.heap → Safe D (f a) w' R) : Safe D (x >>= f) w R := by
  show (Eval.bind x f w).Sat _ _
  unfold Eval.bind
  unfold Safe at hx
  cases hxw : x w with
  | value a w' =>
      rw [hxw] at hx
      obtain ⟨hl, hq⟩ := hx
      have hfa := hf a w' hl hq
      unfold Safe at hfa
      show (f a w').Sat _ _
      cases hfw : f a w' with
      | value b w'' => rw [hfw] at hfa; exact ⟨hl.trans hfa.1, hfa.2⟩
      | fault e w'' => rw [hfw] at hfa; exact hl.trans hfa
      | misuse m => rw [hfw] at hfa; exact hfa
      | exhausted => trivial
  | fault e w' => rw [hxw] at hx; exact hx
  | misuse m => rw [hxw] at hx; exact hx
  | exhausted => trivial

theorem safe_pure (hw : w.heap.WellFormed) {a : α} (ha : Q a w.heap) :
    Safe D (pure a : Eval α) w Q :=
  ⟨.refl hw, ha⟩

theorem safe_raise (hw : w.heap.WellFormed) (cause : Cause) (span : Span) :
    Safe D (raise cause span : Eval α) w Q :=
  World.Leads.refl hw

/-- Looking at the heap and going on. -/
theorem safe_read_bind {f : Heap → α} {g : α → Eval β} (h : Safe D (g (f w.heap)) w R) :
    Safe D (read f >>= g) w R :=
  h

theorem safe_update {f : Heap → Heap} {Q : Unit → Heap → Prop} (hf : (f w.heap).WellFormed)
    (hg : w.heap.Grows (f w.heap)) (ha : w.heap.AddsOnly D (f w.heap)) (hq : Q () (f w.heap)) :
    Safe D (update f) w Q :=
  ⟨⟨hf, hg, ha⟩, hq⟩

end

section
variable {w : World}

theorem safe_print (hw : w.heap.WellFormed) (text : String) :
    Safe D (print text) w (fun _ _ => True) :=
  ⟨.of_heap_eq hw rfl, trivial⟩

theorem safe_note (hw : w.heap.WellFormed) (call : CallNote) :
    Safe D (note call) w (fun _ _ => True) :=
  ⟨.of_heap_eq hw rfl, trivial⟩

theorem safe_newScope (hw : w.heap.WellFormed) {parent : ScopeId}
    (hp : parent < w.heap.scopes.size) :
    Safe D (newScope parent) w (fun i h => i < h.scopes.size) := by
  refine ⟨⟨hw.newScope fun p h => ?_, Heap.grows_newScope _ _, Heap.addsOnly_newScope _ _⟩, ?_⟩
  · cases h
    exact hp
  · show w.heap.scopes.size < (w.heap.newScope (some parent)).2.scopes.size
    rw [Heap.size_newScope]
    exact Nat.lt_succ_self _

/-- What is done in a new scope adds no names to those that were there. -/
theorem safe_newScope_bind {β : Type} {f : ScopeId → Eval β} {R : β → Heap → Prop}
    (hw : w.heap.WellFormed) {parent : ScopeId} (hp : parent < w.heap.scopes.size)
    (hf : ∀ i w', w.Leads D w' → i < w'.heap.scopes.size → Safe (fun j _ => j = i) (f i) w' R) :
    Safe D (newScope parent >>= f) w R := by
  let i := w.heap.scopes.size
  let w₁ : World := ⟨(w.heap.newScope (some parent)).2, w.output, w.calls⟩
  obtain ⟨hl, hi⟩ : w.Leads D w₁ ∧ i < w₁.heap.scopes.size := safe_newScope hw hp
  have hfi := hf i w₁ hl hi
  unfold Safe at hfi
  show (f i w₁).Sat _ _
  cases hx : f i w₁ with
  | value b w₂ => rw [hx] at hfi; exact ⟨hl.trans_fresh (Nat.le_refl i) hfi.1, hfi.2⟩
  | fault e w₂ => rw [hx] at hfi; exact hl.trans_fresh (Nat.le_refl i) hfi
  | misuse m => rw [hx] at hfi; exact hfi
  | exhausted => trivial

theorem safe_define (hw : w.heap.WellFormed) {scope : ScopeId} (hs : scope < w.heap.scopes.size)
    {name : String} (hD : D scope name) {v : Value} (hv : v.LivesIn w.heap) :
    Safe D (define scope name v) w (fun _ _ => True) :=
  safe_update (hw.define hs name hv) (Heap.grows_define hs name _)
    (Heap.addsOnly_define hs (.inr hD) _) trivial

/-! ## Names and pointers -/

theorem safe_derefSlot (hw : w.heap.WellFormed) {v : Value} (hv : v.LivesIn w.heap) (span : Span) :
    Safe D (derefSlot v span) w (fun slot h => ∃ u, slot = some u ∧ u.LivesIn h ∧ u.IsPlain) := by
  have hd := hw.deref? hv
  cases v with
  | pointer p =>
      refine safe_read_bind ?_
      cases hs : w.heap.deref? (.pointer p) with
      | none => exact safe_raise hw _ _
      | some slot =>
          rw [hs] at hd
          exact safe_pure hw hd
  | number n => exact safe_pure hw hd
  | string s => exact safe_pure hw hd
  | bool b => exact safe_pure hw hd
  | unit => exact safe_pure hw hd
  | function f => exact safe_pure hw hd
  | builtin b => exact safe_pure hw hd

theorem safe_plain (hw : w.heap.WellFormed) {v : Value} (hv : v.LivesIn w.heap) (span : Span) :
    Safe D (plain v span) w (fun u h => u.LivesIn h ∧ u.IsPlain) := by
  refine (safe_derefSlot hw hv span).bind fun slot w' hl hslot => ?_
  obtain ⟨u, rfl, hu⟩ := hslot
  exact safe_pure hl.wellFormed hu

theorem safe_lookup (hw : w.heap.WellFormed) (scope : ScopeId) (name : String) (span : Span) :
    Safe D (lookup scope name span) w (fun v h => v.LivesIn h) := by
  refine safe_read_bind ?_
  cases hg : w.heap.get? scope name with
  | none => exact safe_raise hw _ _
  | some slot =>
      obtain ⟨v, rfl, hv⟩ := hw.get? hg
      exact safe_pure hw hv

theorem safe_reference (hw : w.heap.WellFormed) (scope : ScopeId) (name : String) (span : Span) :
    Safe D (reference scope name span) w (fun v h => v.LivesIn h) := by
  refine safe_read_bind ?_
  cases hp : w.heap.pointer? scope name with
  | none => exact safe_raise hw _ _
  | some p => exact safe_pure hw (Heap.binds_of_pointer? hp)

theorem safe_store (hw : w.heap.WellFormed) (scope : ScopeId) (name : String) {v : Value}
    (hv : v.LivesIn w.heap) (span : Span) :
    Safe D (store scope name v span) w (fun _ _ => True) := by
  refine safe_read_bind ?_
  cases hp : w.heap.pointer? scope name with
  | none => exact safe_raise hw _ _
  | some p =>
      refine safe_read_bind ?_
      cases hq : w.heap.follow? p with
      | none => exact safe_raise hw _ _
      | some q =>
          -- the last binding of the chain exists, so the store makes no new one
          have hb := (hw.followFrom Heap.maxHops p q (Heap.binds_of_pointer? hp) hq).1
          exact safe_update (hw.define hb.lt_size q.name hv) (Heap.grows_define hb.lt_size _ _)
            (Heap.addsOnly_define hb.lt_size (.inl hb) _) trivial

/-! ## Operators and methods -/

theorem safe_divide (hw : w.heap.WellFormed) (a b : Number) (span : Span) :
    Safe D (divide a b span) w (fun v h => v.LivesIn h) := by
  unfold divide
  split
  · exact safe_raise hw _ _
  · next hb =>
    cases a with
    | double x => exact safe_pure hw trivial
    | int m =>
        cases b with
        | double y => exact safe_pure hw trivial
        | int n =>
            have hn : n ≠ 0 := by simpa [Number.isZero] using hb
            simp only [Number.quotient?, if_neg hn]
            exact safe_pure hw trivial

theorem safe_operate (hw : w.heap.WellFormed) (op : BinaryOp) (l r : Value) (span : Span) :
    Safe D (operate op l r span) w (fun v h => v.LivesIn h) := by
  cases op with
  | equal =>
      simp only [operate]
      split
      · exact safe_pure hw trivial
      · exact safe_raise hw _ _
  | notEqual =>
      simp only [operate]
      split
      · exact safe_pure hw trivial
      · exact safe_raise hw _ _
  | add =>
      simp only [operate]
      split
      · exact safe_pure hw trivial
      · exact safe_pure hw trivial
      · exact safe_raise hw _ _
  | subtract =>
      simp only [operate]
      split
      · exact safe_pure hw trivial
      · exact safe_raise hw _ _
  | multiply =>
      simp only [operate]
      split
      · exact safe_pure hw trivial
      · exact safe_raise hw _ _
  | divide =>
      simp only [operate]
      split
      · exact safe_divide hw _ _ _
      · exact safe_raise hw _ _

theorem safe_negate (hw : w.heap.WellFormed) (v : Value) (span : Span) :
    Safe D (negate v span) w (fun v h => v.LivesIn h) := by
  unfold negate
  split
  · exact safe_pure hw trivial
  · exact safe_raise hw _ _

theorem safe_truth (hw : w.heap.WellFormed) (guard : Guard) (v : Value) (span : Span) :
    Safe D (truth guard v span) w (fun _ _ => True) := by
  unfold truth
  split
  · exact safe_pure hw trivial
  · exact safe_raise hw _ _

theorem safe_numberFor (hw : w.heap.WellFormed) (m : Method) (v : Value) (span : Span) :
    Safe D (numberFor m v span) w (fun _ _ => True) := by
  unfold numberFor
  split
  · exact safe_pure hw trivial
  · exact safe_raise hw _ _

theorem safe_storeTo (hw : w.heap.WellFormed) (scope : ScopeId) (target? : Option Ident) {v : Value}
    (hv : v.LivesIn w.heap) : Safe D (storeTo scope target? v) w (fun _ _ => True) := by
  cases target? with
  | none => exact safe_pure hw trivial
  | some x => exact safe_store hw scope x.name hv x.span

theorem safe_runMethod (hw : w.heap.WellFormed) (scope : ScopeId) (target? : Option Ident)
    (m : BoundMethod) (args : List (Value × Span)) (span : Span) :
    Safe D (runMethod scope target? m args span) w (fun v h => v.LivesIn h) := by
  unfold runMethod
  split
  · exact safe_pure hw trivial
  · refine (safe_numberFor hw _ _ _).bind fun b w' hl _ => ?_
    exact safe_pure hl.wellFormed trivial
  · next a _ _ =>
    refine (safe_numberFor hw _ _ _).bind fun b w' hl _ => ?_
    have hsum : (Value.number (a.add b)).LivesIn w'.heap := trivial
    refine (safe_storeTo hl.wellFormed scope target? hsum).bind fun _ w'' hl' _ => ?_
    exact safe_pure hl'.wellFormed trivial
  · exact safe_raise hw _ _

theorem safe_callMethod (hw : w.heap.WellFormed) (scope : ScopeId) (target? : Option Ident)
    (receiver : Value) (name : Ident) (args : List (Value × Span)) (span : Span) :
    Safe D (callMethod scope target? receiver name args span) w (fun v h => v.LivesIn h) := by
  unfold callMethod
  split
  · exact safe_runMethod hw _ _ _ _ _
  · exact safe_raise hw _ _

/-! ## Builtins

A builtin is run on what its arguments refer to.  None of these slots is empty, and where a builtin
reads its first argument without looking, the number of arguments has been checked. -/

theorem safe_derefAll (span : Span) :
    ∀ (vs : List Value) {w : World}, w.heap.WellFormed → (∀ v ∈ vs, v.LivesIn w.heap) →
      Safe D (derefAll span vs) w (fun slots _ =>
        slots.length = vs.length ∧ ∀ slot ∈ slots, ∃ u, slot = some u)
  | [], _, hw, _ => safe_pure hw ⟨rfl, fun _ h => nomatch h⟩
  | v :: vs, w, hw, hvs => by
      have hv := hvs v List.mem_cons_self
      refine (safe_derefSlot hw hv span).bind fun slot w₁ hl₁ hslot => ?_
      have hvs₁ : ∀ u ∈ vs, u.LivesIn w₁.heap := fun u hu =>
        (hvs u (List.mem_cons_of_mem _ hu)).mono hl₁.grows
      refine (safe_derefAll span vs hl₁.wellFormed hvs₁).bind fun slots w₂ hl₂ hslots => ?_
      obtain ⟨hlen, hall⟩ := hslots
      refine safe_pure hl₂.wellFormed ⟨congrArg (· + 1) hlen, fun s hs => ?_⟩
      rcases List.mem_cons.mp hs with rfl | hs
      · obtain ⟨u, hu, -⟩ := hslot
        exact ⟨u, hu⟩
      · exact hall s hs

theorem safe_say (hw : w.heap.WellFormed) (text : String) :
    Safe D (Builtin.say text) w (fun v h => v.LivesIn h) := by
  refine (safe_print hw text).bind fun _ w' hl _ => ?_
  exact safe_pure hl.wellFormed trivial

theorem safe_runFormat (hw : w.heap.WellFormed) (args : List Slot)
    (hargs : ∀ slot ∈ args, ∃ u, slot = some u) (span : Span) :
    Safe D (Builtin.runFormat args span) w (fun v h => v.LivesIn h) := by
  unfold Builtin.runFormat
  split
  · exact safe_raise hw _ _
  · refine safe_read_bind ?_
    split
    · exact safe_pure hw trivial
    · exact safe_raise hw _ _
  · exact safe_raise hw _ _
  · obtain ⟨u, hu⟩ := hargs none List.mem_cons_self
    cases hu

theorem safe_runWait (hw : w.heap.WellFormed) (args : List Slot) (hargs : args.length = 1)
    (span : Span) : Safe D (Builtin.runWait args span) w (fun v h => v.LivesIn h) := by
  unfold Builtin.runWait
  split
  · cases hargs
  · split
    · exact safe_pure hw trivial
    · exact safe_read_bind (safe_raise hw _ _)
  · exact safe_read_bind (safe_raise hw _ _)

theorem safe_callBuiltin (hw : w.heap.WellFormed) (b : Builtin) (args : List Value)
    (hargs : ∀ v ∈ args, v.LivesIn w.heap) (span : Span) :
    Safe D (callBuiltin b args span) w (fun v h => v.LivesIn h) := by
  have hderef := safe_derefAll (D := D) span args hw hargs
  cases b with
  | println =>
      refine hderef.bind fun slots w' hl _ => ?_
      exact safe_read_bind (safe_say hl.wellFormed _)
  | print =>
      refine hderef.bind fun slots w' hl _ => ?_
      exact safe_read_bind (safe_say hl.wellFormed _)
  | format =>
      refine hderef.bind fun slots w' hl hslots => ?_
      exact safe_runFormat hl.wellFormed slots hslots.2 span
  | wait =>
      simp only [callBuiltin, Builtin.arity?]
      split
      · next hlen =>
        refine hderef.bind fun slots w' hl hslots => ?_
        exact safe_runWait hl.wellFormed slots (hslots.1.trans hlen) span
      · exact safe_raise hw _ _
  | clear =>
      simp only [callBuiltin, Builtin.arity?]
      split
      · exact hderef.bind fun slots w' hl _ => safe_say hl.wellFormed _
      · exact safe_raise hw _ _

end

/-! ## Expressions

How a function is run is given from outside; the expressions are safe if that is. -/

/-- Running a function of the heap on values of the heap is safe, and declares nothing in the scopes
that were there. -/
def SafeInvoke (inv : Invoke) : Prop :=
  ∀ ⦃D : ScopeId → String → Prop⦄ (f : Closure) (args : List Value) (span : Span) (w : World),
    w.heap.WellFormed → f.scope < w.heap.scopes.size → (∀ v ∈ args, v.LivesIn w.heap) →
    Safe D (inv f args span) w (fun v h => v.LivesIn h)

theorem safe_callValue {inv : Invoke} (hinv : SafeInvoke inv) {w : World}
    (hw : w.heap.WellFormed) {callee : Value} (hcallee : callee.LivesIn w.heap)
    {args : List Value} (hargs : ∀ v ∈ args, v.LivesIn w.heap) (span : Span) :
    Safe D (callValue inv callee args span) w (fun v h => v.LivesIn h) := by
  cases callee with
  | function f => exact hinv f args span w hw hcallee hargs
  | builtin b => exact safe_callBuiltin hw b args hargs span
  | number n => exact safe_raise hw _ _
  | string s => exact safe_raise hw _ _
  | bool b => exact safe_raise hw _ _
  | unit => exact safe_raise hw _ _
  | pointer p => exact safe_raise hw _ _

mutual

theorem safe_expr {inv : Invoke} (hinv : SafeInvoke inv) (e : Expr) {scope : ScopeId} {w : World}
    (hw : w.heap.WellFormed) (hs : scope < w.heap.scopes.size) :
    Safe D (expr inv scope e) w (fun v h => v.LivesIn h) := by
  match e with
  | .int n _ => exact safe_pure hw trivial
  | .float x _ => exact safe_pure hw trivial
  | .string s _ => exact safe_pure hw trivial
  | .bool b _ => exact safe_pure hw trivial
  | .var x => exact safe_lookup hw scope x.name x.span
  | .ref x span => exact safe_reference hw scope x.name span
  | .negate operand span =>
      rw [expr]
      refine (safe_expr hinv operand hw hs).bind fun v w₁ h₁ hv => ?_
      refine (safe_plain h₁.wellFormed hv _).bind fun u w₂ h₂ _ => ?_
      exact safe_negate h₂.wellFormed u span
  | .binary op left right span =>
      rw [expr]
      refine (safe_expr hinv left hw hs).bind fun l w₁ h₁ hl => ?_
      refine (safe_plain h₁.wellFormed hl _).bind fun l' w₂ h₂ _ => ?_
      have hs₂ := Nat.lt_of_lt_of_le hs (h₁.trans h₂).grows.size_le
      refine (safe_expr hinv right h₂.wellFormed hs₂).bind fun r w₃ h₃ hr => ?_
      refine (safe_plain h₃.wellFormed hr _).bind fun r' w₄ h₄ _ => ?_
      exact safe_operate h₄.wellFormed op l' r' span
  | .assign x value span =>
      rw [expr]
      refine (safe_expr hinv value hw hs).bind fun v w₁ h₁ hv => ?_
      refine (safe_store h₁.wellFormed scope x.name hv x.span).bind fun _ w₂ h₂ _ => ?_
      exact safe_pure h₂.wellFormed (hv.mono h₂.grows)
  | .call callee args span =>
      rw [expr]
      refine (safe_expr hinv callee hw hs).bind fun v w₁ h₁ hv => ?_
      refine (safe_plain h₁.wellFormed hv _).bind fun f w₂ h₂ hf => ?_
      have hs₂ := Nat.lt_of_lt_of_le hs (h₁.trans h₂).grows.size_le
      refine (safe_exprs hinv args h₂.wellFormed hs₂).bind fun vs w₃ h₃ hvs => ?_
      exact safe_callValue hinv h₃.wellFormed (hf.1.mono h₃.grows) hvs span
  | .method receiver name args span =>
      rw [expr]
      refine (safe_expr hinv receiver hw hs).bind fun v w₁ h₁ hv => ?_
      refine (safe_plain h₁.wellFormed hv _).bind fun u w₂ h₂ _ => ?_
      have hs₂ := Nat.lt_of_lt_of_le hs (h₁.trans h₂).grows.size_le
      refine (safe_plainExprs hinv args h₂.wellFormed hs₂).bind fun vs w₃ h₃ _ => ?_
      exact safe_callMethod h₃.wellFormed scope _ u name vs span
  | .fn params body span => exact safe_pure hw hs

theorem safe_exprs {inv : Invoke} (hinv : SafeInvoke inv) (es : List Expr) {scope : ScopeId}
    {w : World} (hw : w.heap.WellFormed) (hs : scope < w.heap.scopes.size) :
    Safe D (exprs inv scope es) w (fun vs h => ∀ v ∈ vs, v.LivesIn h) := by
  match es with
  | [] => exact safe_pure hw fun _ h => nomatch h
  | e :: es =>
      rw [exprs]
      refine (safe_expr hinv e hw hs).bind fun v w₁ h₁ hv => ?_
      have hs₁ := Nat.lt_of_lt_of_le hs h₁.grows.size_le
      refine (safe_exprs hinv es h₁.wellFormed hs₁).bind fun vs w₂ h₂ hvs => ?_
      refine safe_pure h₂.wellFormed fun u hu => ?_
      rcases List.mem_cons.mp hu with rfl | hu
      · exact hv.mono h₂.grows
      · exact hvs u hu

theorem safe_plainExprs {inv : Invoke} (hinv : SafeInvoke inv) (es : List Expr) {scope : ScopeId}
    {w : World} (hw : w.heap.WellFormed) (hs : scope < w.heap.scopes.size) :
    Safe D (plainExprs inv scope es) w (fun vs h => ∀ a ∈ vs, a.1.LivesIn h) := by
  match es with
  | [] => exact safe_pure hw fun _ h => nomatch h
  | e :: es =>
      rw [plainExprs]
      refine (safe_expr hinv e hw hs).bind fun v w₁ h₁ hv => ?_
      refine (safe_plain h₁.wellFormed hv _).bind fun u w₂ h₂ hu => ?_
      have hs₂ := Nat.lt_of_lt_of_le hs (h₁.trans h₂).grows.size_le
      refine (safe_plainExprs hinv es h₂.wellFormed hs₂).bind fun vs w₃ h₃ hvs => ?_
      refine safe_pure h₃.wellFormed fun a ha => ?_
      rcases List.mem_cons.mp ha with rfl | ha
      · exact hu.1.mono h₃.grows
      · exact hvs a ha

end

end Eval

/-! ## Statements -/

/-- The value that a flow carries lives in the heap. -/
def Flow.LivesIn (h : Heap) : Flow → Prop
  | .next v => v.LivesIn h
  | .returned v => v.LivesIn h
  | .broke _ => True

/-- The name that a statement binds in its own scope. -/
def Stmt.declared? : Stmt → Option String
  | .letIn x _ _ => some x.name
  | .fnDecl x _ _ _ => some x.name
  | _ => none

namespace Eval

section
variable {D : ScopeId → String → Prop}

theorem safe_condition {inv : Invoke} (hinv : SafeInvoke inv) (guard : Guard) (e : Expr)
    {scope : ScopeId} {w : World} (hw : w.heap.WellFormed) (hs : scope < w.heap.scopes.size) :
    Safe D (condition inv scope guard e) w (fun _ _ => True) := by
  refine (safe_expr hinv e hw hs).bind fun v w₁ h₁ hv => ?_
  refine (safe_plain h₁.wellFormed hv _).bind fun u w₂ h₂ _ => ?_
  exact safe_truth h₂.wellFormed guard u _

/-- A loop is safe if its condition and its body are, in every world it may come to. -/
theorem safe_loop {c : Eval Bool} {b : Eval Flow} :
    ∀ (turns : Nat) {w : World}, w.heap.WellFormed →
      (∀ w', w.Leads D w' → Safe D c w' (fun _ _ => True)) →
      (∀ w', w.Leads D w' → Safe D b w' (fun flow h => flow.LivesIn h)) →
      Safe D (loop c b turns) w (fun flow h => flow.LivesIn h)
  | 0, _, _, _, _ => trivial
  | turns + 1, w, hw, hc, hb => by
      rw [loop]
      refine (hc w (.refl hw)).bind fun go w₁ h₁ _ => ?_
      cases go with
      | false => exact safe_pure h₁.wellFormed trivial
      | true =>
          refine (hb w₁ h₁).bind fun flow w₂ h₂ hflow => ?_
          cases flow with
          | next v =>
              have h₁₂ := h₁.trans h₂
              exact safe_loop turns h₂.wellFormed (fun w' h' => hc w' (h₁₂.trans h'))
                (fun w' h' => hb w' (h₁₂.trans h'))
          | broke span => exact safe_pure h₂.wellFormed trivial
          | returned v => exact safe_pure h₂.wellFormed hflow

end

mutual

-- `D` changes on the way: a block has a scope of its own, in which it may declare what it likes
theorem safe_stmt {inv : Invoke} (hinv : SafeInvoke inv) (maxTurns : Nat) (s : Stmt)
    {D : ScopeId → String → Prop} {scope : ScopeId} {w : World} (hw : w.heap.WellFormed)
    (hs : scope < w.heap.scopes.size) (hD : ∀ m, s.declared? = some m → D scope m) :
    Safe D (stmt inv maxTurns scope s) w (fun flow h => flow.LivesIn h) := by
  match s with
  | .expr e span =>
      rw [stmt]
      refine (safe_expr hinv e hw hs).bind fun v w₁ h₁ hv => ?_
      exact safe_pure h₁.wellFormed hv
  | .letIn x e span =>
      rw [stmt]
      refine (safe_expr hinv e hw hs).bind fun v w₁ h₁ hv => ?_
      have hs₁ := Nat.lt_of_lt_of_le hs h₁.grows.size_le
      refine (safe_define h₁.wellFormed hs₁ (hD _ rfl) hv).bind fun _ w₂ h₂ _ => ?_
      exact safe_pure h₂.wellFormed trivial
  | .fnDecl x params body span =>
      rw [stmt]
      have hf : (Value.function ⟨some x.name, params.map Ident.name, body, scope⟩).LivesIn w.heap :=
        hs
      refine (safe_define hw hs (hD _ rfl) hf).bind fun _ w₁ h₁ _ => ?_
      exact safe_pure h₁.wellFormed trivial
  | .ifThen c body span =>
      rw [stmt]
      refine (safe_condition hinv .ifThen c hw hs).bind fun go w₁ h₁ _ => ?_
      cases go with
      | false => exact safe_pure h₁.wellFormed trivial
      | true =>
          have hs₁ := Nat.lt_of_lt_of_le hs h₁.grows.size_le
          refine safe_newScope_bind h₁.wellFormed hs₁ fun inner w₂ h₂ hinner => ?_
          exact safe_block hinv maxTurns body h₂.wellFormed hinner fun _ => rfl
  | .whileDo c body span =>
      rw [stmt]
      refine safe_loop maxTurns hw (fun w' h' => ?_) (fun w' h' => ?_)
      · have hs' := Nat.lt_of_lt_of_le hs h'.grows.size_le
        exact safe_condition hinv .whileDo c h'.wellFormed hs'
      · have hs' := Nat.lt_of_lt_of_le hs h'.grows.size_le
        refine safe_newScope_bind h'.wellFormed hs' fun inner w₂ h₂ hinner => ?_
        exact safe_block hinv maxTurns body h₂.wellFormed hinner fun _ => rfl
  | .returnUnit span => exact safe_pure hw trivial
  | .returnValue e span =>
      rw [stmt]
      refine (safe_expr hinv e hw hs).bind fun v w₁ h₁ hv => ?_
      exact safe_pure h₁.wellFormed hv
  | .breakOut span => exact safe_pure hw trivial

theorem safe_block {inv : Invoke} (hinv : SafeInvoke inv) (maxTurns : Nat) (b : Block)
    {D : ScopeId → String → Prop} {scope : ScopeId} {w : World} (hw : w.heap.WellFormed)
    (hs : scope < w.heap.scopes.size) (hD : ∀ m, D scope m) :
    Safe D (block inv maxTurns scope b) w (fun flow h => flow.LivesIn h) := by
  match b with
  | [] => exact safe_pure hw trivial
  | s :: rest =>
      rw [block]
      refine (safe_stmt hinv maxTurns s hw hs fun m _ => hD m).bind fun flow w₁ h₁ hflow => ?_
      cases flow with
      | next v =>
          have hs₁ := Nat.lt_of_lt_of_le hs h₁.grows.size_le
          exact safe_block hinv maxTurns rest h₁.wellFormed hs₁ hD
      | returned v => exact safe_pure h₁.wellFormed hflow
      | broke span => exact safe_pure h₁.wellFormed hflow

end

/-! ## Calls and programs -/

/-- Names may be declared anywhere. -/
def anywhere : ScopeId → String → Prop :=
  fun _ _ => True

section
variable {D : ScopeId → String → Prop}

/-- Binding parameters one after the other keeps a heap well formed. -/
theorem wellFormed_bindAll {scope : ScopeId} :
    ∀ (bs : List (String × Value)) {h : Heap}, h.WellFormed → scope < h.scopes.size →
      (∀ b ∈ bs, b.2.LivesIn h) →
      let h' := bs.foldl (fun h b => h.define scope b.1 (some b.2)) h
      h'.WellFormed ∧ h.Grows h'
  | [], h, hw, _, _ => ⟨hw, .refl h⟩
  | b :: bs, h, hw, hs, hbs => by
      have hb := hbs b List.mem_cons_self
      have hg := Heap.grows_define hs b.1 (some b.2)
      obtain ⟨hw', hg'⟩ := wellFormed_bindAll bs (hw.define hs b.1 hb)
        (Nat.lt_of_lt_of_le hs hg.size_le)
        (fun c hc => (hbs c (List.mem_cons_of_mem _ hc)).mono hg)
      exact ⟨hw', hg.trans hg'⟩

theorem addsOnly_bindAll {scope : ScopeId} (hD : ∀ m, D scope m) :
    ∀ (bs : List (String × Value)) {h : Heap}, scope < h.scopes.size →
      h.AddsOnly D (bs.foldl (fun h b => h.define scope b.1 (some b.2)) h)
  | [], h, _ => Heap.addsOnly_refl h
  | b :: bs, h, hs => by
      have hb := Heap.addsOnly_define hs (.inr (hD b.1)) (some b.2)
      have hle := (Heap.grows_define hs b.1 (some b.2)).size_le
      exact hb.trans hle (addsOnly_bindAll hD bs (Nat.lt_of_lt_of_le hs hle))

theorem safe_bindParams {scope : ScopeId} {w : World} (hw : w.heap.WellFormed)
    (hs : scope < w.heap.scopes.size) (hD : ∀ m, D scope m) (params : List String)
    {args : List Value} (hargs : ∀ v ∈ args, v.LivesIn w.heap) :
    Safe D (bindParams scope params args) w (fun _ h => scope < h.scopes.size) := by
  obtain ⟨hw', hg⟩ := wellFormed_bindAll (params.zip args) hw hs
    (fun b hb => hargs b.2 (List.of_mem_zip hb).2)
  exact safe_update hw' hg (addsOnly_bindAll hD _ hs) (Nat.lt_of_lt_of_le hs hg.size_le)

theorem safe_body {inv : Invoke} (hinv : SafeInvoke inv) (maxTurns : Nat) (f : Closure)
    {args : List Value} {w : World} (hw : w.heap.WellFormed) (hf : f.scope < w.heap.scopes.size)
    (hargs : ∀ v ∈ args, v.LivesIn w.heap) :
    Safe D (body inv maxTurns f args) w (fun v h => v.LivesIn h) := by
  refine safe_newScope_bind hw hf fun scope w₁ h₁ hscope => ?_
  have hargs₁ : ∀ v ∈ args, v.LivesIn w₁.heap := fun v hv => (hargs v hv).mono h₁.grows
  refine (safe_bindParams h₁.wellFormed hscope (fun _ => rfl) f.params hargs₁).bind
    fun _ w₂ h₂ hscope₂ => ?_
  refine (safe_block hinv maxTurns f.body h₂.wellFormed hscope₂ fun _ => rfl).bind
    fun flow w₃ h₃ hflow => ?_
  cases flow with
  | returned v => exact safe_pure h₃.wellFormed hflow
  | broke span => exact safe_raise h₃.wellFormed _ _
  | next v => exact safe_pure h₃.wellFormed trivial

theorem safe_noteCall (limits : Limits) (f : Closure) (depth : Nat) {w : World}
    (hw : w.heap.WellFormed) : Safe D (noteCall limits f depth) w (fun _ _ => True) := by
  unfold noteCall
  split
  · exact safe_note hw _
  · exact safe_pure hw trivial

end

/-- Functions are safe to run, by induction on how many more calls may become active. -/
theorem safe_invoke (limits : Limits) (left : Nat) : SafeInvoke (invoke limits left) := by
  induction left with
  | zero =>
      intro D f args span w hw hf hargs
      rw [invoke]
      split
      · exact safe_raise hw _ _
      · exact safe_raise hw _ _
  | succ left ih =>
      intro D f args span w hw hf hargs
      rw [invoke]
      split
      · refine (safe_noteCall limits f _ hw).bind fun _ w₁ h₁ _ => ?_
        exact safe_body ih limits.maxTurns f h₁.wellFormed
          (Nat.lt_of_lt_of_le hf h₁.grows.size_le) (fun v hv => (hargs v hv).mono h₁.grows)
      · exact safe_raise hw _ _

theorem safe_programFrom (limits : Limits) {scope : ScopeId} :
    ∀ (p : Program) {last : Value} {w : World}, w.heap.WellFormed →
      scope < w.heap.scopes.size → last.LivesIn w.heap →
      Safe anywhere (programFrom limits scope last p) w (fun v h => v.LivesIn h)
  | [], _, _, hw, _, hlast => safe_pure hw hlast
  | s :: rest, last, w, hw, hs, hlast => by
      rw [programFrom]
      have hinv := safe_invoke limits limits.maxDepth
      refine (safe_stmt hinv limits.maxTurns s hw hs fun _ _ => trivial).bind
        fun flow w₁ h₁ hflow => ?_
      cases flow with
      | next v =>
          refine safe_programFrom limits rest h₁.wellFormed
            (Nat.lt_of_lt_of_le hs h₁.grows.size_le) ?_
          split
          · exact hflow
          · exact hlast.mono h₁.grows
      | returned v => exact safe_pure h₁.wellFormed hflow
      | broke span => exact safe_raise h₁.wellFormed _ _

theorem safe_program (limits : Limits) (p : Program) {scope : ScopeId} {w : World}
    (hw : w.heap.WellFormed) (hs : scope < w.heap.scopes.size) :
    Safe anywhere (program limits scope p) w (fun v h => v.LivesIn h) :=
  safe_programFrom limits p hw hs trivial

end Eval

end HamScript
