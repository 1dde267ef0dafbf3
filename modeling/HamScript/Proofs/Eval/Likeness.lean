/-
# Two runs in step

Two programs that are alike are run in worlds whose heaps are alike, under the same bounds.  Then
the runs go the same way: `Agree L A x y` says that the computations `x` and `y` both end with values
that are related by `A`, or both with faults of one cause, or in the same misuse, or are both cut
off; that the heaps they leave are alike; and that on their way they have printed and recorded the
same.  What has been printed before may differ.  If there are no loops, no run is cut off.

The proof goes through the evaluator from the bottom up, one lemma for each function, as the one of
safety does.  Positions are passed along and put into faults, names are looked up and bound, and
bodies of functions are run; nothing else is done with a tree.

Uses of `agree_answer`, by what the likeness says:

    spans moved on one side             layout does not matter
    some spans moved, others kept       a program is moved and the functions it calls are not
    the same program, without loops     no run is cut off
    the same program                    what has been printed stays (`Agree.appends`)
-/
import HamScript.Proofs.Eval.Answer
import HamScript.Proofs.Heap.Likeness

namespace HamScript

open Source (Span)

/-- Faults of one cause, at spans that may stand at one place. -/
structure RuntimeFault.Alike (L : Likeness) (f f' : RuntimeFault) : Prop where
  cause_eq : f.cause = f'.cause
  spans : L.spans f.span f'.span
  strays : f.cause = .strayBreak → L.strays f.span f'.span

/-- From `w` to `v` and from `w'` to `v'` the same has been printed and recorded, and the heaps of
`v` and `v'` are alike. -/
structure World.Since (L : Likeness) (w w' v v' : World) : Prop where
  heap : v.heap.Alike L v'.heap
  output : ∃ text, v.output = w.output ++ text ∧ v'.output = w'.output ++ text
  calls : ∃ notes, v.calls = notes ++ w.calls ∧ v'.calls = notes ++ w'.calls

section
variable {L : Likeness} {w w' v v' u u' : World}

theorem World.Since.refl (hw : w.heap.Alike L w'.heap) : World.Since L w w' w w' where
  heap := hw
  output := ⟨"", String.append_empty.symm, String.append_empty.symm⟩
  calls := ⟨[], rfl, rfl⟩

theorem World.Since.trans (h : World.Since L w w' v v') (h' : World.Since L v v' u u') :
    World.Since L w w' u u' where
  heap := h'.heap
  output := by
    obtain ⟨a, ha, ha'⟩ := h.output
    obtain ⟨b, hb, hb'⟩ := h'.output
    exact ⟨a ++ b, by rw [hb, ha, String.append_assoc], by rw [hb', ha', String.append_assoc]⟩
  calls := by
    obtain ⟨a, ha, ha'⟩ := h.calls
    obtain ⟨b, hb, hb'⟩ := h'.calls
    exact ⟨b ++ a, by rw [hb, ha, List.append_assoc], by rw [hb', ha', List.append_assoc]⟩

end

/-- The outcomes of two computations that have been begun in `w` and `w'`. -/
inductive Outcome.Alike (L : Likeness) {α : Type} (A : α → α → Prop) (w w' : World) :
    Outcome α → Outcome α → Prop
  | value {a a' : α} {v v' : World} :
      A a a' → World.Since L w w' v v' → Outcome.Alike L A w w' (.value a v) (.value a' v')
  | fault {f f' : RuntimeFault} {v v' : World} :
      f.Alike L f' → World.Since L w w' v v' → Outcome.Alike L A w w' (.fault f v) (.fault f' v')
  | misuse (m : Misuse) : Outcome.Alike L A w w' (.misuse m) (.misuse m)
  | exhausted : L.loops → Outcome.Alike L A w w' .exhausted .exhausted

/-- A flow that leaves a loop comes from a `break` of the one kind or the other. -/
inductive Flow.Alike (L : Likeness) (inLoop : Bool) : Flow → Flow → Prop
  | next {v v' : Value} : v.Alike L v' → Flow.Alike L inLoop (.next v) (.next v')
  | returned {v v' : Value} : v.Alike L v' → Flow.Alike L inLoop (.returned v) (.returned v')
  | broke {s s' : Span} :
      L.spans s s' → (inLoop = false → L.strays s s') → Flow.Alike L inLoop (.broke s) (.broke s')

theorem Value.Alike.equals?_eq {L : Likeness} {a a' b b' : Value} (ha : a.Alike L a')
    (hb : b.Alike L b') : a.equals? b = a'.equals? b' := by
  cases ha <;> cases hb <;> rfl

namespace Eval

/-- Begun in worlds whose heaps are alike, the two computations go the same way. -/
def Agree (L : Likeness) {α : Type} (A : α → α → Prop) (x y : Eval α) : Prop :=
  ∀ w w', w.heap.Alike L w'.heap → Outcome.Alike L A w w' (x w) (y w')

section
variable {L : Likeness} {α β : Type} {A : α → α → Prop} {B : β → β → Prop}

/-! ## Steps -/

theorem Agree.bind {x y : Eval α} {f g : α → Eval β} (h : Agree L A x y)
    (hf : ∀ a a', A a a' → Agree L B (f a) (g a')) : Agree L B (x >>= f) (y >>= g) := by
  intro w w' hw
  change Outcome.Alike L B w w' (Eval.bind x f w) (Eval.bind y g w')
  unfold Eval.bind
  have hxy := h w w' hw
  generalize x w = o, y w' = o' at hxy
  cases hxy with
  | @value a a' v v' ha hv =>
      have hfg := hf a a' ha v v' hv.heap
      dsimp only
      generalize f a v = o, g a' v' = o' at hfg
      cases hfg with
      | value hb hu => exact .value hb (hv.trans hu)
      | fault he hu => exact .fault he (hv.trans hu)
      | misuse m => exact .misuse m
      | exhausted hl => exact .exhausted hl
  | fault he hv => exact .fault he hv
  | misuse m => exact .misuse m
  | exhausted hl => exact .exhausted hl

theorem agree_pure {a a' : α} (ha : A a a') : Agree L A (pure a) (pure a') :=
  fun _ _ hw => .value ha (.refl hw)

theorem agree_raise {cause : Cause} (hcause : cause ≠ .strayBreak) {span span' : Span}
    (hs : L.spans span span') : Agree L A (raise cause span) (raise cause span') :=
  fun _ _ hw => .fault ⟨rfl, hs, fun h => absurd h hcause⟩ (.refl hw)

theorem agree_strayBreak {span span' : Span} (hs : L.spans span span')
    (hstray : L.strays span span') :
    Agree L A (raise .strayBreak span) (raise .strayBreak span') :=
  fun _ _ hw => .fault ⟨rfl, hs, fun _ => hstray⟩ (.refl hw)

theorem agree_misuse (m : Misuse) : Agree L A (Eval.misuse m) (Eval.misuse m) :=
  fun _ _ _ => .misuse m

theorem agree_read {f g : Heap → α} (hf : ∀ h h', h.Alike L h' → A (f h) (g h')) :
    Agree L A (read f) (read g) :=
  fun w w' hw => .value (hf w.heap w'.heap hw) (.refl hw)

theorem agree_update {f g : Heap → Heap} (hf : ∀ h h', h.Alike L h' → (f h).Alike L (g h')) :
    Agree L Eq (update f) (update g) := by
  intro w w' hw
  have hsince := World.Since.refl hw
  exact .value rfl ⟨hf w.heap w'.heap hw, hsince.output, hsince.calls⟩

theorem agree_print (text : String) : Agree L Eq (print text) (print text) := by
  intro w w' hw
  exact .value rfl ⟨hw, ⟨text, rfl, rfl⟩, ⟨[], rfl, rfl⟩⟩

theorem agree_note (call : CallNote) : Agree L Eq (note call) (note call) := by
  intro w w' hw
  exact .value rfl ⟨hw, (World.Since.refl hw).output, ⟨[call], rfl, rfl⟩⟩

theorem agree_newScope (parent : ScopeId) : Agree L Eq (newScope parent) (newScope parent) := by
  intro w w' hw
  have hsince := World.Since.refl hw
  exact .value hw.size_eq ⟨hw.newScope (some parent), hsince.output, hsince.calls⟩

theorem agree_define (scope : ScopeId) (name : String) {v v' : Value} (hv : v.Alike L v') :
    Agree L Eq (define scope name v) (define scope name v') :=
  agree_update fun _ _ hh => hh.define scope name (.some hv)

/-! ## Names and pointers -/

theorem agree_filled {slot slot' : Slot} (h : Slot.Alike L slot slot') :
    Agree L (Value.Alike L) (filled slot) (filled slot') := by
  cases h with
  | none => exact agree_misuse _
  | some hv => exact agree_pure hv

section
variable {span span' : Span}

theorem agree_derefSlot {v v' : Value} (hv : v.Alike L v') (hs : L.spans span span') :
    Agree L (Slot.Alike L) (derefSlot v span) (derefSlot v' span') := by
  cases hv with
  | @pointer p hp =>
      have hread : Agree L (Option.Rel (Slot.Alike L)) (read (·.deref? (.pointer p)))
          (read (·.deref? (.pointer p))) := agree_read fun _ _ hh => hh.deref? (.pointer hp)
      refine hread.bind fun d d' hd => ?_
      cases hd with
      | none => exact agree_raise Cause.noConfusion hs
      | some hslot => exact agree_pure hslot
  | function hf => exact agree_pure (.some (.function hf))
  | number n => exact agree_pure (.some (.number n))
  | string t => exact agree_pure (.some (.string t))
  | bool b => exact agree_pure (.some (.bool b))
  | unit => exact agree_pure (.some .unit)
  | builtin b => exact agree_pure (.some (.builtin b))

theorem agree_plain {v v' : Value} (hv : v.Alike L v') (hs : L.spans span span') :
    Agree L (Value.Alike L) (plain v span) (plain v' span') :=
  (agree_derefSlot hv hs).bind fun _ _ hslot => agree_filled hslot

theorem agree_lookup (scope : ScopeId) {name : String} (hname : L.names name)
    (hs : L.spans span span') :
    Agree L (Value.Alike L) (lookup scope name span) (lookup scope name span') := by
  have hread : Agree L (Option.Rel (Slot.Alike L)) (read (·.get? scope name))
      (read (·.get? scope name)) := agree_read fun _ _ hh => hh.get? hname scope
  refine hread.bind fun slot slot' hslot => ?_
  cases hslot with
  | none => exact agree_raise Cause.noConfusion hs
  | some hslot => exact agree_filled hslot

/-- The binding of a name has that name. -/
theorem agree_pointer? (scope : ScopeId) {name : String} (hname : L.names name) :
    Agree L (fun p p' => p = p' ∧ ∀ q, p = some q → L.names q.name)
      (read (·.pointer? scope name)) (read (·.pointer? scope name)) := by
  refine agree_read fun h h' hh => ⟨hh.pointer?_eq hname scope, fun q hq => ?_⟩
  rw [Heap.Alike.name_of_pointer? hq]
  exact hname

theorem agree_reference (scope : ScopeId) {name : String} (hname : L.names name)
    (hs : L.spans span span') :
    Agree L (Value.Alike L) (reference scope name span) (reference scope name span') := by
  refine (agree_pointer? scope hname).bind fun p p' hp => ?_
  obtain ⟨rfl, hp⟩ := hp
  cases p with
  | none => exact agree_raise Cause.noConfusion hs
  | some q => exact agree_pure (.pointer (hp q rfl))

theorem agree_store (scope : ScopeId) {name : String} (hname : L.names name) {v v' : Value}
    (hv : v.Alike L v') (hs : L.spans span span') :
    Agree L Eq (store scope name v span) (store scope name v' span') := by
  refine (agree_pointer? scope hname).bind fun p p' hp => ?_
  obtain ⟨rfl, hp⟩ := hp
  cases p with
  | none => exact agree_raise Cause.noConfusion hs
  | some q =>
      have hread : Agree L Eq (read (·.follow? q)) (read (·.follow? q)) :=
        agree_read fun _ _ hh => (hh.followFrom Heap.maxHops (hp q rfl)).1
      refine hread.bind fun last last' hlast => ?_
      obtain rfl : last = last' := hlast
      cases last with
      | none => exact agree_raise Cause.noConfusion hs
      | some r => exact agree_update fun _ _ hh => hh.define r.scope r.name (.some hv)

/-! ## Operators -/

theorem agree_divide (a b : Number) (hs : L.spans span span') :
    Agree L (Value.Alike L) (divide a b span) (divide a b span') := by
  unfold divide
  split
  · exact agree_raise Cause.noConfusion hs
  · cases a.quotient? b with
    | none => exact agree_misuse _
    | some q => exact agree_pure (.number q)

theorem agree_operate (op : BinaryOp) {l l' r r' : Value} (hl : l.Alike L l') (hr : r.Alike L r')
    (hs : L.spans span span') :
    Agree L (Value.Alike L) (operate op l r span) (operate op l' r' span') := by
  have mismatch : Agree L (Value.Alike L) (raise (.operandKinds op l.kind r.kind) span)
      (raise (.operandKinds op l'.kind r'.kind) span') := by
    rw [hl.kind_eq, hr.kind_eq]
    exact agree_raise Cause.noConfusion hs
  cases op with
  | equal =>
      simp only [operate, hl.equals?_eq hr]
      cases l'.equals? r' with
      | none => exact mismatch
      | some b => exact agree_pure (.bool b)
  | notEqual =>
      simp only [operate, hl.equals?_eq hr]
      cases l'.equals? r' with
      | none => exact mismatch
      | some b => exact agree_pure (.bool !b)
  | add =>
      cases hl with
      | number a =>
          cases hr with
          | number b => exact agree_pure (.number _)
          | _ => exact mismatch
      | string a =>
          cases hr with
          | string b => exact agree_pure (.string _)
          | _ => exact mismatch
      | _ => exact mismatch
  | subtract =>
      cases hl with
      | number a =>
          cases hr with
          | number b => exact agree_pure (.number _)
          | _ => exact mismatch
      | _ => exact mismatch
  | multiply =>
      cases hl with
      | number a =>
          cases hr with
          | number b => exact agree_pure (.number _)
          | _ => exact mismatch
      | _ => exact mismatch
  | divide =>
      cases hl with
      | number a =>
          cases hr with
          | number b => exact agree_divide a b hs
          | _ => exact mismatch
      | _ => exact mismatch

theorem agree_negate {v v' : Value} (hv : v.Alike L v') (hs : L.spans span span') :
    Agree L (Value.Alike L) (negate v span) (negate v' span') := by
  cases hv with
  | number n => exact agree_pure (.number n.negate)
  | _ => exact agree_raise Cause.noConfusion hs

theorem agree_truth (guard : Guard) {v v' : Value} (hv : v.Alike L v') (hs : L.spans span span') :
    Agree L Eq (truth guard v span) (truth guard v' span') := by
  cases hv with
  | bool b => exact agree_pure rfl
  | _ => exact agree_raise Cause.noConfusion hs

/-! ## Methods -/

/-- Arguments of methods come with their spans. -/
def ArgAlike (L : Likeness) (a a' : Value × Span) : Prop :=
  a.1.Alike L a'.1 ∧ L.spans a.2 a'.2

theorem agree_numberFor (m : Method) {v v' : Value} (hv : v.Alike L v') (hs : L.spans span span') :
    Agree L Eq (numberFor m v span) (numberFor m v' span') := by
  cases hv with
  | number n => exact agree_pure rfl
  | _ => exact agree_raise Cause.noConfusion hs

theorem agree_storeTo (scope : ScopeId) {x x' : Option Ident} (hx : Option.Rel (Ident.Alike L) x x')
    {v v' : Value} (hv : v.Alike L v') :
    Agree L Eq (storeTo scope x v) (storeTo scope x' v') := by
  cases hx with
  | none => exact agree_pure rfl
  | @some x x' hx =>
      simp only [storeTo, ← hx.name_eq]
      exact agree_store scope hx.allowed hv hx.spans

theorem agree_runMethod (scope : ScopeId) {x x' : Option Ident}
    (hx : Option.Rel (Ident.Alike L) x x') (m : BoundMethod) {args args' : List (Value × Span)}
    (hargs : List.Forall₂ (ArgAlike L) args args') (hs : L.spans span span') :
    Agree L (Value.Alike L) (runMethod scope x m args span) (runMethod scope x' m args' span') := by
  have hcount : Agree L (Value.Alike L)
      (raise (.methodArity m.method m.method.arity args.length) span)
      (raise (.methodArity m.method m.method.arity args'.length) span') := by
    rw [hargs.length_eq]
    exact agree_raise Cause.noConfusion hs
  cases hargs with
  | nil =>
      cases m with
      | len t => exact agree_pure (.number _)
      | sum n | mutSum n => exact hcount
  | @cons a a' args args' ha hargs =>
      cases hargs with
      | cons => cases m <;> exact hcount
      | nil =>
          cases m with
          | len t => exact hcount
          | sum n =>
              refine (agree_numberFor .sum ha.1 ha.2).bind fun b b' hb => ?_
              obtain rfl : b = b' := hb
              exact agree_pure (.number _)
          | mutSum n =>
              refine (agree_numberFor .mutSum ha.1 ha.2).bind fun b b' hb => ?_
              obtain rfl : b = b' := hb
              refine (agree_storeTo scope hx (.number _)).bind fun _ _ _ => ?_
              exact agree_pure (.number _)

theorem agree_callMethod (scope : ScopeId) {x x' : Option Ident}
    (hx : Option.Rel (Ident.Alike L) x x') {v v' : Value} (hv : v.Alike L v') {name name' : Ident}
    (hname : name.Alike L name') {args args' : List (Value × Span)}
    (hargs : List.Forall₂ (ArgAlike L) args args') (hs : L.spans span span') :
    Agree L (Value.Alike L) (callMethod scope x v name args span)
      (callMethod scope x' v' name' args' span') := by
  have hmethod : BoundMethod.of? v name.name = BoundMethod.of? v' name'.name := by
    rw [hname.name_eq]
    cases hv <;> rfl
  unfold callMethod
  rw [hmethod]
  cases BoundMethod.of? v' name'.name with
  | some m => exact agree_runMethod scope hx m hargs hs
  | none =>
      dsimp only
      rw [hv.kind_eq, hname.name_eq]
      exact agree_raise Cause.noConfusion hname.spans

/-! ## Builtins -/

theorem agree_derefAll (hs : L.spans span span') {vs vs' : List Value}
    (h : List.Forall₂ (Value.Alike L) vs vs') :
    Agree L (List.Forall₂ (Slot.Alike L)) (derefAll span vs) (derefAll span' vs') := by
  induction h with
  | nil => exact agree_pure .nil
  | cons hv _ ih =>
      refine (agree_derefSlot hv hs).bind fun slot slot' hslot => ?_
      refine ih.bind fun slots slots' hslots => ?_
      exact agree_pure (.cons hslot hslots)

theorem agree_texts {args args' : List Slot} (h : List.Forall₂ (Slot.Alike L) args args') :
    Agree L Eq (Builtin.texts args) (Builtin.texts args') := by
  refine agree_read fun g g' hg => ?_
  induction h with
  | nil => rfl
  | cons hslot _ ih => rw [List.map_cons, List.map_cons, hg.text_eq hslot, ih]

theorem agree_say (text : String) :
    Agree L (Value.Alike L) (Builtin.say text) (Builtin.say text) :=
  (agree_print text).bind fun _ _ _ => agree_pure .unit

theorem agree_formatTemplate (template : String) {args args' : List Slot}
    (h : List.Forall₂ (Slot.Alike L) args args') (hs : L.spans span span') :
    Agree L (Value.Alike L) (Builtin.formatTemplate template args span)
      (Builtin.formatTemplate template args' span') := by
  refine (agree_texts h).bind fun shown shown' hshown => ?_
  obtain rfl : shown = shown' := hshown
  split
  · exact agree_pure (.string _)
  · exact agree_raise Cause.noConfusion hs

theorem agree_runFormat {args args' : List Slot} (h : List.Forall₂ (Slot.Alike L) args args')
    (hs : L.spans span span') :
    Agree L (Value.Alike L) (Builtin.runFormat args span) (Builtin.runFormat args' span') := by
  cases h with
  | nil => exact agree_raise Cause.noConfusion hs
  | cons hslot hrest =>
      cases hslot with
      | none => exact agree_misuse _
      | some hv =>
          cases hv with
          | string template => exact agree_formatTemplate template hrest hs
          | _ => exact agree_raise Cause.noConfusion hs

theorem agree_runWait {args args' : List Slot} (h : List.Forall₂ (Slot.Alike L) args args')
    (hs : L.spans span span') :
    Agree L (Value.Alike L) (Builtin.runWait args span) (Builtin.runWait args' span') := by
  have refuse : ∀ {slot slot' : Slot}, Slot.Alike L slot slot' → Agree L (Value.Alike L)
      (do raise (.waitArgument (← read (·.text slot))) span)
      (do raise (.waitArgument (← read (·.text slot'))) span') := by
    intro slot slot' hslot
    have hread : Agree L Eq (read (·.text slot)) (read (·.text slot')) :=
      agree_read fun _ _ hh => hh.text_eq hslot
    refine hread.bind fun text text' htext => ?_
    obtain rfl : text = text' := htext
    exact agree_raise Cause.noConfusion hs
  cases h with
  | nil => exact agree_misuse _
  | cons hslot hrest =>
      cases hslot with
      | none => exact refuse .none
      | some hv =>
          cases hv with
          | number n =>
              cases n with
              | int n =>
                  simp only [Builtin.runWait]
                  split
                  · exact agree_pure .unit
                  · exact refuse (.some (.number _))
              | double x => exact refuse (.some (.number _))
          | function hf => exact refuse (.some (.function hf))
          | string t => exact refuse (.some (.string t))
          | bool b => exact refuse (.some (.bool b))
          | unit => exact refuse (.some .unit)
          | builtin b => exact refuse (.some (.builtin b))
          | pointer hp => exact refuse (.some (.pointer hp))

theorem agree_run (b : Builtin) {args args' : List Slot}
    (h : List.Forall₂ (Slot.Alike L) args args') (hs : L.spans span span') :
    Agree L (Value.Alike L) (b.run args span) (b.run args' span') := by
  cases b with
  | println | print =>
      refine (agree_texts h).bind fun texts texts' htexts => ?_
      obtain rfl : texts = texts' := htexts
      exact agree_say _
  | format => exact agree_runFormat h hs
  | wait => exact agree_runWait h hs
  | clear => exact agree_say _

theorem agree_callBuiltin (b : Builtin) {args args' : List Value}
    (h : List.Forall₂ (Value.Alike L) args args') (hs : L.spans span span') :
    Agree L (Value.Alike L) (callBuiltin b args span) (callBuiltin b args' span') := by
  have hrun : Agree L (Value.Alike L) (do b.run (← derefAll span args) span)
      (do b.run (← derefAll span' args') span') :=
    (agree_derefAll hs h).bind fun _ _ hslots => agree_run b hslots hs
  unfold callBuiltin
  rw [h.length_eq]
  cases b.arity? with
  | none => exact hrun
  | some n =>
      dsimp only
      split
      · exact hrun
      · exact agree_raise Cause.noConfusion hs

end

/-! ## Expressions

How a function is run is given from outside, on both sides. -/

/-- Functions that are alike are run on values that are alike, and the runs go the same way. -/
def AgreeInvoke (L : Likeness) (inv inv' : Invoke) : Prop :=
  ∀ {f f' : Closure} {args args' : List Value} {span span' : Span}, f.Alike L f' →
    List.Forall₂ (Value.Alike L) args args' → L.spans span span' →
    Agree L (Value.Alike L) (inv f args span) (inv' f' args' span')

theorem agree_callValue {inv inv' : Invoke} (hinv : AgreeInvoke L inv inv') {v v' : Value}
    (hv : v.Alike L v') {args args' : List Value} (hargs : List.Forall₂ (Value.Alike L) args args')
    {span span' : Span} (hs : L.spans span span') :
    Agree L (Value.Alike L) (callValue inv v args span) (callValue inv' v' args' span') := by
  cases hv with
  | function hf => exact hinv hf hargs hs
  | builtin b => exact agree_callBuiltin b hargs hs
  | number | string | bool | unit | pointer => exact agree_raise Cause.noConfusion hs

mutual

theorem agree_expr {inv inv' : Invoke} (hinv : AgreeInvoke L inv inv') (scope : ScopeId) :
    (e : Expr) → {e' : Expr} → e.Alike L e' →
    Agree L (Value.Alike L) (expr inv scope e) (expr inv' scope e')
  | .int n _, _, .int _ _ => agree_pure (.number (.int n))
  | .float x _, _, .float _ _ => agree_pure (.number (.double x))
  | .string t _, _, .string _ _ => agree_pure (.string t)
  | .bool b _, _, .bool _ _ => agree_pure (.bool b)
  | .var x, _, .var hx => by
      rw [expr, expr, ← hx.name_eq]
      exact agree_lookup scope hx.allowed hx.spans
  | .ref x _, _, .ref hx hs => by
      rw [expr, expr, ← hx.name_eq]
      exact agree_reference scope hx.allowed hs
  | .negate e _, _, .negate he hs => by
      rw [expr, expr]
      refine (agree_expr hinv scope e he).bind fun v v' hv => ?_
      refine (agree_plain hv he.span).bind fun u u' hu => ?_
      exact agree_negate hu hs
  | .binary op l r _, _, .binary _ hl hr hs => by
      rw [expr, expr]
      refine (agree_expr hinv scope l hl).bind fun v v' hv => ?_
      refine (agree_plain hv hl.span).bind fun a a' ha => ?_
      refine (agree_expr hinv scope r hr).bind fun u u' hu => ?_
      refine (agree_plain hu hr.span).bind fun b b' hb => ?_
      exact agree_operate op ha hb hs
  | .assign x e _, _, .assign hx he _ => by
      rw [expr, expr, ← hx.name_eq]
      refine (agree_expr hinv scope e he).bind fun v v' hv => ?_
      refine (agree_store scope hx.allowed hv hx.spans).bind fun _ _ _ => ?_
      exact agree_pure hv
  | .call c es _, _, .call hc hes hs => by
      rw [expr, expr]
      refine (agree_expr hinv scope c hc).bind fun v v' hv => ?_
      refine (agree_plain hv hc.span).bind fun f f' hf => ?_
      refine (agree_exprs hinv scope es hes).bind fun vs vs' hvs => ?_
      exact agree_callValue hinv hf hvs hs
  | .method r x es _, _, .method hr hx hes hs => by
      rw [expr, expr]
      refine (agree_expr hinv scope r hr).bind fun v v' hv => ?_
      refine (agree_plain hv hr.span).bind fun u u' hu => ?_
      refine (agree_plainExprs hinv scope es hes).bind fun args args' hargs => ?_
      exact agree_callMethod scope hr.target? hu hx hargs hs
  | .fn xs b _, _, .fn hxs hb _ => by
      rw [expr, expr]
      refine agree_pure (.function ?_)
      exact ⟨rfl, Ident.map_name_of_alike hxs, Ident.allowed_of_alike hxs, hb, rfl⟩

theorem agree_exprs {inv inv' : Invoke} (hinv : AgreeInvoke L inv inv') (scope : ScopeId) :
    (es : List Expr) → {es' : List Expr} → Expr.AllAlike L es es' →
    Agree L (List.Forall₂ (Value.Alike L)) (exprs inv scope es) (exprs inv' scope es')
  | [], _, .nil => agree_pure .nil
  | e :: es, _, .cons he hes => by
      rw [exprs, exprs]
      refine (agree_expr hinv scope e he).bind fun v v' hv => ?_
      refine (agree_exprs hinv scope es hes).bind fun vs vs' hvs => ?_
      exact agree_pure (.cons hv hvs)

theorem agree_plainExprs {inv inv' : Invoke} (hinv : AgreeInvoke L inv inv') (scope : ScopeId) :
    (es : List Expr) → {es' : List Expr} → Expr.AllAlike L es es' →
    Agree L (List.Forall₂ (ArgAlike L)) (plainExprs inv scope es) (plainExprs inv' scope es')
  | [], _, .nil => agree_pure .nil
  | e :: es, _, .cons he hes => by
      rw [plainExprs, plainExprs]
      refine (agree_expr hinv scope e he).bind fun v v' hv => ?_
      refine (agree_plain hv he.span).bind fun u u' hu => ?_
      refine (agree_plainExprs hinv scope es hes).bind fun args args' hargs => ?_
      exact agree_pure (.cons ⟨hu, he.span⟩ hargs)

end

/-! ## Statements -/

theorem agree_condition {inv inv' : Invoke} (hinv : AgreeInvoke L inv inv') (scope : ScopeId)
    (guard : Guard) {e e' : Expr} (he : e.Alike L e') :
    Agree L Eq (condition inv scope guard e) (condition inv' scope guard e') := by
  refine (agree_expr hinv scope e he).bind fun v v' hv => ?_
  refine (agree_plain hv he.span).bind fun u u' hu => ?_
  exact agree_truth guard hu he.span

/-- Loops take turns in step.  What leaves a loop is no `break` any more. -/
theorem agree_loop (hloops : L.loops) (inLoop : Bool) {c c' : Eval Bool} {b b' : Eval Flow}
    (hc : Agree L Eq c c') (hb : Agree L (Flow.Alike L true) b b') (turns : Nat) :
    Agree L (Flow.Alike L inLoop) (loop c b turns) (loop c' b' turns) := by
  induction turns with
  | zero => exact fun _ _ _ => .exhausted hloops
  | succ turns ih =>
      rw [loop, loop]
      refine hc.bind fun go go' hgo => ?_
      obtain rfl : go = go' := hgo
      cases go with
      | false => exact agree_pure (.next .unit)
      | true =>
          refine hb.bind fun flow flow' hflow => ?_
          cases hflow with
          | next _ => exact ih
          | broke _ _ => exact agree_pure (.next .unit)
          | returned hv => exact agree_pure (.returned hv)

mutual

theorem agree_stmt {inv inv' : Invoke} (hinv : AgreeInvoke L inv inv') (maxTurns : Nat)
    (scope : ScopeId) : (t : Stmt) → {t' : Stmt} → {inLoop : Bool} → t.Alike L inLoop t' →
    Agree L (Flow.Alike L inLoop) (stmt inv maxTurns scope t) (stmt inv' maxTurns scope t')
  | .expr e _, _, _, .expr _ he _ => by
      rw [stmt, stmt]
      refine (agree_expr hinv scope e he).bind fun v v' hv => ?_
      exact agree_pure (.next hv)
  | .letIn x e _, _, _, .letIn _ hx he _ => by
      rw [stmt, stmt, ← hx.name_eq]
      refine (agree_expr hinv scope e he).bind fun v v' hv => ?_
      refine (agree_define scope x.name hv).bind fun _ _ _ => ?_
      exact agree_pure (.next .unit)
  | .fnDecl x xs b _, _, _, .fnDecl _ hx hxs hb _ => by
      rw [stmt, stmt, ← hx.name_eq]
      refine (agree_define scope x.name (.function ?_)).bind fun _ _ _ => ?_
      · exact ⟨rfl, Ident.map_name_of_alike hxs, Ident.allowed_of_alike hxs, hb, rfl⟩
      · exact agree_pure (.next .unit)
  | .ifThen c b _, _, _, .ifThen hc hb _ => by
      rw [stmt, stmt]
      refine (agree_condition hinv scope .ifThen hc).bind fun go go' hgo => ?_
      obtain rfl : go = go' := hgo
      cases go with
      | false => exact agree_pure (.next .unit)
      | true =>
          refine (agree_newScope scope).bind fun inner inner' hinner => ?_
          obtain rfl : inner = inner' := hinner
          exact agree_block hinv maxTurns inner b hb
  | .whileDo c b _, _, inLoop, .whileDo _ hloops hc hb _ => by
      rw [stmt, stmt]
      refine agree_loop hloops inLoop (agree_condition hinv scope .whileDo hc) ?_ maxTurns
      refine (agree_newScope scope).bind fun inner inner' hinner => ?_
      obtain rfl : inner = inner' := hinner
      exact agree_block hinv maxTurns inner b hb
  | .returnUnit _, _, _, .returnUnit _ _ => by
      rw [stmt, stmt]
      exact agree_pure (.returned .unit)
  | .returnValue e _, _, _, .returnValue _ he _ => by
      rw [stmt, stmt]
      refine (agree_expr hinv scope e he).bind fun v v' hv => ?_
      exact agree_pure (.returned hv)
  | .breakOut _, _, _, .breakOut hs hstray => by
      rw [stmt, stmt]
      exact agree_pure (.broke hs hstray)

theorem agree_block {inv inv' : Invoke} (hinv : AgreeInvoke L inv inv') (maxTurns : Nat)
    (scope : ScopeId) : (b : Block) → {b' : Block} → {inLoop : Bool} → Stmt.AllAlike L inLoop b b' →
    Agree L (Flow.Alike L inLoop) (block inv maxTurns scope b) (block inv' maxTurns scope b')
  | [], _, _, .nil _ => by
      rw [block]
      exact agree_pure (.next .unit)
  | t :: b, _, _, .cons ht hb => by
      rw [block, block]
      refine (agree_stmt hinv maxTurns scope t ht).bind fun flow flow' hflow => ?_
      cases hflow with
      | next _ => exact agree_block hinv maxTurns scope b hb
      | returned hv => exact agree_pure (.returned hv)
      | broke hs hstray => exact agree_pure (.broke hs hstray)

end

/-! ## Calls and programs -/

theorem agree_body {inv inv' : Invoke} (hinv : AgreeInvoke L inv inv') (maxTurns : Nat)
    {f f' : Closure} (hf : f.Alike L f') {args args' : List Value}
    (hargs : List.Forall₂ (Value.Alike L) args args') :
    Agree L (Value.Alike L) (body inv maxTurns f args) (body inv' maxTurns f' args') := by
  unfold body
  rw [← hf.scope_eq, ← hf.params_eq]
  refine (agree_newScope f.scope).bind fun scope scope' hscope => ?_
  obtain rfl : scope = scope' := hscope
  have hbind : Agree L Eq (bindParams scope f.params args) (bindParams scope f.params args') :=
    agree_update fun _ _ hh => hh.defineAll scope hargs
  refine hbind.bind fun _ _ _ => ?_
  refine (agree_block hinv maxTurns scope f.body hf.body).bind fun flow flow' hflow => ?_
  cases hflow with
  | returned hv => exact agree_pure hv
  | broke hs hstray => exact agree_strayBreak hs (hstray rfl)
  | next _ => exact agree_pure .unit

theorem agree_noteCall (limits : Limits) {f f' : Closure} (hf : f.Alike L f') (depth : Nat) :
    Agree L Eq (noteCall limits f depth) (noteCall limits f' depth) := by
  unfold noteCall
  rw [hf.shownName_eq]
  split
  · exact agree_note _
  · exact agree_pure rfl

theorem agree_invoke (limits : Limits) (left : Nat) :
    AgreeInvoke L (invoke limits left) (invoke limits left) := by
  induction left with
  | zero =>
      intro f f' args args' span span' hf hargs hs
      rw [invoke, invoke, hargs.length_eq, hf.params_eq, hf.shownName_eq]
      split
      · exact agree_raise Cause.noConfusion hs
      · exact agree_raise Cause.noConfusion hs
  | succ left ih =>
      intro f f' args args' span span' hf hargs hs
      rw [invoke, invoke, hargs.length_eq, hf.params_eq, hf.shownName_eq]
      split
      · refine (agree_noteCall limits hf _).bind fun _ _ _ => ?_
        exact agree_body ih limits.maxTurns hf hargs
      · exact agree_raise Cause.noConfusion hs

theorem leavesValue_of_alike {inLoop : Bool} {t t' : Stmt} (h : t.Alike L inLoop t') :
    leavesValue t = leavesValue t' := by
  cases h <;> rfl

theorem agree_answer (limits : Limits) (scope : ScopeId) : (p : Program) → {p' : Program} →
    Stmt.AllAlike L false p p' →
    Agree L (Option.Rel (Value.Alike L)) (answer limits scope p) (answer limits scope p')
  | [], _, .nil _ => agree_pure .none
  | t :: p, _, .cons ht hp => by
      have hinv : AgreeInvoke L (invoke limits limits.maxDepth) (invoke limits limits.maxDepth) :=
        agree_invoke limits limits.maxDepth
      rw [answer, answer, ← leavesValue_of_alike ht]
      refine (agree_stmt hinv limits.maxTurns scope t ht).bind fun flow flow' hflow => ?_
      cases hflow with
      | next hv =>
          refine (agree_answer limits scope p hp).bind fun later later' hlater => ?_
          refine agree_pure ?_
          cases hlater with
          | some hu => exact .some hu
          | none =>
              cases leavesValue t with
              | true => exact .some hv
              | false => exact .none
      | returned hv => exact agree_pure (.some hv)
      | broke hs hstray => exact agree_strayBreak hs (hstray rfl)

end

end Eval

end HamScript
