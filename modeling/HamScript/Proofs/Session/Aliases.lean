/-
# Assignments and aliases

An assignment to a name goes through the pointers to the last binding of the name's chain; reading a
name, or a pointer, goes through them too.  So all the names and pointers that lead to one binding
are aliases of each other.

Proved here, for every heap that a session comes to:

* what is read after a plain value has been assigned (`read_after_store`): all the aliases read the
  new value, and everything else reads, or fails to read, as before;
* what `x = x` does (`selfAssign_harmless_iff`).  The right-hand side of an assignment is not
  dereferenced, and so the last binding gets the pointer that the name itself holds, if it holds
  one.  The chain is a circle then.

The two ways through the pointers have one bound, and do not begin at the same place: reading begins
with what the name is bound to, and assigning with the binding of the name itself, which is one hop
before that.  A chain of exactly `maxHops` hops can be read, and cannot be assigned through.
-/
import HamScript.Proofs.Eval.Answer
import HamScript.Proofs.Heap.Chains
import HamScript.Proofs.Session.Scopes

namespace HamScript

open Source (Span)

/-- The same way to end, in another world. -/
def Outcome.within {α : Type} (w : World) : Outcome α → Outcome α
  | .value a _ => .value a w
  | .fault f _ => .fault f w
  | .misuse m => .misuse m
  | .exhausted => .exhausted

/-- The world that differs in one binding only, which holds the value. -/
structure World.Assigned (last : Pointer) (v : Value) (w w' : World) : Prop where
  binding : w.heap.Binding last.scope last.name v w'.heap
  size_eq : w'.heap.scopes.size = w.heap.scopes.size
  parent_eq : ∀ i, w'.heap.parent? i = w.heap.parent? i
  output_eq : w'.output = w.output
  calls_eq : w'.calls = w.calls

/-- The world with another value in a binding. -/
def World.stored (w : World) (last : Pointer) (v : Value) : World :=
  { w with heap := w.heap.store last (some v) }

theorem World.assigned_stored {w : World} {last : Pointer} (hlast : w.heap.Binds last)
    (v : Value) : World.Assigned last v w (w.stored last v) where
  binding := Heap.binding_define hlast.lt_size last.name v
  size_eq := Heap.size_define w.heap last.scope last.name (some v)
  parent_eq := Heap.parent?_define w.heap last.scope last.name (some v)
  output_eq := rfl
  calls_eq := rfl

namespace Eval

open Heap (maxHops)

variable {inv : Invoke} {i env : ScopeId} {m x : Ident} {p q last : Pointer} {v u : Value}
  {w w' : World} {span : Span}

/-! ## Reading -/

theorem plain_of_isPlain (hv : v.IsPlain) (span : Span) (w : World) :
    plain v span w = .value v w := by
  cases v with
  | pointer p => exact absurd rfl (hv p)
  | number | string | bool | unit | function | builtin => rfl

theorem plain_pointer_of_resolves (hr : w.heap.Resolves maxHops q last) (span : Span) :
    plain (.pointer q) span w = filled (w.heap.load last) w := by
  have hderef : w.heap.deref? (.pointer q) = some (w.heap.load last) := by
    rw [Heap.deref?, Heap.follow?, Heap.followFrom_eq_some_iff.mpr hr, Option.map_some]
  have hslot : derefSlot (.pointer q) span w = .value (w.heap.load last) w := by
    rw [derefSlot, read_bind, hderef]
    rfl
  rw [plain, bind_of_value hslot]

theorem plain_pointer_of_not_resolves (hr : ∀ last, ¬ w.heap.Resolves maxHops q last)
    (span : Span) : plain (.pointer q) span w = .fault ⟨.circularPointer q.name, span⟩ w := by
  have hderef : w.heap.deref? (.pointer q) = none := by
    rw [Heap.deref?, Heap.follow?, Option.map_eq_none_iff, Option.eq_none_iff_forall_ne_some]
    intro last hlast
    exact hr last (Heap.followFrom_eq_some_iff.mp hlast)
  have hslot : derefSlot (.pointer q) span w = .fault ⟨.circularPointer q.name, span⟩ w := by
    rw [derefSlot, read_bind, hderef]
    rfl
  rw [plain, bind_of_fault hslot]

theorem plainExpr_var_of_unbound (hp : w.heap.pointer? i m.name = none) :
    plainExpr inv i (.var m) w = .fault ⟨.undefinedName m.name, m.span⟩ w := by
  have hget : w.heap.get? i m.name = none := by rw [Heap.get?_eq, hp]; rfl
  have hlookup : expr inv i (.var m) w = .fault ⟨.undefinedName m.name, m.span⟩ w := by
    rw [expr, lookup, read_bind, hget]
    rfl
  rw [plainExpr, bind_of_fault hlookup]

theorem expr_var_of_load (hp : w.heap.pointer? i m.name = some p)
    (hv : w.heap.load p = some v) : expr inv i (.var m) w = .value v w := by
  rw [expr, lookup, read_bind, Heap.get?_of_pointer? hp, hv]
  rfl

theorem plainExpr_var_of_load (hp : w.heap.pointer? i m.name = some p)
    (hv : w.heap.load p = some v) : plainExpr inv i (.var m) w = plain v m.span w := by
  rw [plainExpr, bind_of_value (expr_var_of_load hp hv)]
  rfl

/-- A name that leads to a binding reads to what this one holds. -/
theorem plainExpr_var_of_nameResolves (hr : w.heap.NameResolves i m.name last)
    (hv : w.heap.load last = some v) : plainExpr inv i (.var m) w = .value v w := by
  obtain ⟨p, hp, hr⟩ := hr
  rcases w.heap.rests_or_points p with hrest | ⟨q, hq⟩
  · obtain rfl := hrest.resolves_iff.mp hr
    rw [plainExpr_var_of_load hp hv]
    exact plain_of_isPlain (fun q hq => hrest q (by rw [hv, hq])) m.span w
  · rw [plainExpr_var_of_load hp hq,
      plain_pointer_of_resolves ((Heap.resolves_iff_of_load hq).mp hr), hv]
    rfl

/-- A name that leads nowhere holds a pointer, and this one is broken. -/
theorem plainExpr_var_of_not_nameResolves (inv : Invoke)
    (hp : w.heap.pointer? i m.name = some p)
    (hr : ∀ last, ¬ w.heap.NameResolves i m.name last) :
    ∃ q, w.heap.load p = some (.pointer q) ∧
      plainExpr inv i (.var m) w = .fault ⟨.circularPointer q.name, m.span⟩ w := by
  rcases w.heap.rests_or_points p with hrest | ⟨q, hq⟩
  · exact absurd ⟨p, hp, hrest.resolves_iff.mpr rfl⟩ (hr p)
  · refine ⟨q, hq, ?_⟩
    rw [plainExpr_var_of_load hp hq]
    refine plain_pointer_of_not_resolves ?_ m.span
    intro last hlast
    exact hr last ⟨p, hp, (Heap.resolves_iff_of_load hq).mpr hlast⟩

theorem load_of_nameResolves (hw : w.heap.WellFormed) (hr : w.heap.NameResolves i m.name last) :
    w.heap.Binds last ∧ w.heap.Rests last ∧ ∃ u, w.heap.load last = some u := by
  obtain ⟨p, hp, hr⟩ := hr
  obtain ⟨hlast, u, hu, -⟩ := hw.load_of_resolves (Heap.binds_of_pointer? hp) hr
  obtain ⟨-, -, -, hrest⟩ := hr
  exact ⟨hlast, hrest, u, hu⟩

/-- A name that reads to a value leads to a binding that holds it. -/
theorem exists_nameResolves_of_value (hw : w.heap.WellFormed)
    (hx : plainExpr inv i (.var m) w = .value u w') :
    ∃ last, w.heap.NameResolves i m.name last ∧ w.heap.load last = some u := by
  cases hp : w.heap.pointer? i m.name with
  | none =>
      rw [plainExpr_var_of_unbound hp] at hx
      cases hx
  | some p =>
      by_cases hr : ∃ last, w.heap.NameResolves i m.name last
      · obtain ⟨last, hr⟩ := hr
        obtain ⟨-, -, v, hv⟩ := load_of_nameResolves hw hr
        rw [plainExpr_var_of_nameResolves hr hv] at hx
        cases hx
        exact ⟨last, hr, hv⟩
      · obtain ⟨q, -, hfault⟩ :=
          plainExpr_var_of_not_nameResolves inv hp (fun last h => hr ⟨last, h⟩)
        rw [hfault] at hx
        cases hx

/-! ## Assigning -/

theorem store_of_resolves (hp : w.heap.pointer? env x.name = some p)
    (hr : w.heap.Resolves maxHops p last) (v : Value) :
    store env x.name v x.span w = .value () (w.stored last v) := by
  have hfollow : w.heap.follow? p = some last := Heap.followFrom_eq_some_iff.mpr hr
  rw [store, read_bind, hp]
  dsimp only
  rw [read_bind, hfollow]
  rfl

/-- An assignment goes through, or it fails and does nothing. -/
theorem store_cases (env : ScopeId) (x : Ident) (v : Value) (w : World) :
    (∃ p last, w.heap.pointer? env x.name = some p ∧ w.heap.Resolves maxHops p last ∧
      store env x.name v x.span w = .value () (w.stored last v)) ∨
    ((∀ p last, w.heap.pointer? env x.name = some p → ¬ w.heap.Resolves maxHops p last) ∧
      ∃ f, store env x.name v x.span w = .fault f w) := by
  cases hp : w.heap.pointer? env x.name with
  | none =>
      refine .inr ⟨(fun p last h => nomatch h), ⟨.undefinedTarget x.name, x.span⟩, ?_⟩
      rw [store, read_bind, hp]
      rfl
  | some p =>
      cases hf : w.heap.follow? p with
      | some last =>
          have hr := Heap.followFrom_eq_some_iff.mp hf
          exact .inl ⟨p, last, rfl, hr, store_of_resolves hp hr v⟩
      | none =>
          refine .inr ⟨?_, ⟨.circularTarget x.name, x.span⟩, ?_⟩
          · rintro _ last ⟨⟩ hr
            cases hf.symm.trans (Heap.followFrom_eq_some_iff.mpr hr)
          · rw [store, read_bind, hp]
            dsimp only
            rw [read_bind, hf]
            rfl

/-! ## Reading after an assignment -/

theorem filled_within (slot : Slot) (w w' : World) :
    filled slot w' = (filled slot w).within w' := by
  cases slot <;> rfl

/-- A pointer that does not lead to the changed binding is not affected. -/
theorem plain_pointer_stored (hlast : w.heap.Binds last) (hrest : w.heap.Rests last)
    (hv : v.IsPlain) (hq : ¬ w.heap.Resolves maxHops q last) (span : Span) :
    plain (.pointer q) span (w.stored last v) =
      (plain (.pointer q) span w).within (w.stored last v) := by
  have hiff : ∀ l, (w.stored last v).heap.Resolves maxHops q l ↔ w.heap.Resolves maxHops q l :=
    fun l => Heap.resolves_store_iff hlast hrest hv
  by_cases hr : ∃ l, w.heap.Resolves maxHops q l
  · obtain ⟨l, hr⟩ := hr
    have hne : l ≠ last := by
      rintro rfl
      exact hq hr
    have hload : (w.stored last v).heap.load l = w.heap.load l :=
      Heap.load_store_of_ne hlast (some v) hne
    rw [plain_pointer_of_resolves hr, plain_pointer_of_resolves ((hiff l).mpr hr), hload]
    exact filled_within _ w _
  · have hnone : ∀ l, ¬ w.heap.Resolves maxHops q l := fun l h => hr ⟨l, h⟩
    rw [plain_pointer_of_not_resolves hnone,
      plain_pointer_of_not_resolves fun l h => hnone l ((hiff l).mp h)]
    rfl

/-- Nor is a name. -/
theorem plainExpr_var_stored (hw : w.heap.WellFormed) (hlast : w.heap.Binds last)
    (hrest : w.heap.Rests last) (hv : v.IsPlain) (hm : ¬ w.heap.NameResolves i m.name last) :
    plainExpr inv i (.var m) (w.stored last v) =
      (plainExpr inv i (.var m) w).within (w.stored last v) := by
  have hiff : ∀ l, (w.stored last v).heap.NameResolves i m.name l ↔
      w.heap.NameResolves i m.name l := fun l => Heap.nameResolves_store_iff hlast hrest hv
  have hpointer : (w.stored last v).heap.pointer? i m.name = w.heap.pointer? i m.name :=
    Heap.pointer?_store hlast (some v) i m.name
  have hload : ∀ l, l ≠ last → (w.stored last v).heap.load l = w.heap.load l :=
    fun l hne => Heap.load_store_of_ne hlast (some v) hne
  cases hp : w.heap.pointer? i m.name with
  | none =>
      rw [plainExpr_var_of_unbound hp, plainExpr_var_of_unbound (hpointer.trans hp)]
      rfl
  | some p =>
      by_cases hr : ∃ l, w.heap.NameResolves i m.name l
      · obtain ⟨l, hr⟩ := hr
        obtain ⟨-, -, u, hu⟩ := load_of_nameResolves hw hr
        have hne : l ≠ last := by
          rintro rfl
          exact hm hr
        rw [plainExpr_var_of_nameResolves hr hu,
          plainExpr_var_of_nameResolves ((hiff l).mpr hr) ((hload l hne).trans hu)]
        rfl
      · have hnone : ∀ l, ¬ w.heap.NameResolves i m.name l := fun l h => hr ⟨l, h⟩
        obtain ⟨q, hq, hfault⟩ := plainExpr_var_of_not_nameResolves inv hp hnone
        obtain ⟨q', hq', hfault'⟩ := plainExpr_var_of_not_nameResolves inv
          (hpointer.trans hp) fun l h => hnone l ((hiff l).mp h)
        -- the name holds a pointer, so that its own binding is not the changed one
        have hne : p ≠ last := by
          rintro rfl
          exact hrest q hq
        rw [hload p hne, hq] at hq'
        cases hq'
        rw [hfault, hfault']
        rfl

end Eval

section
open Eval (plain plainExpr stmt store)

/-- **Reading after an assignment.**  Let a plain value `v` be assigned to the name `x` in a heap
that a session comes to.  If the name is unbound, or its chain does not end in time, the assignment
fails and nothing is changed.  Otherwise it succeeds, and of all bindings only the last one of the
chain changes, which is the one of `x` itself if that holds no pointer.  From then on `x` reads to
`v`, and so do all pointers and names that led to this binding.  All the others, and so those whose
chain does not pass through it, read to what they did before, or fail as they did before. -/
theorem read_after_store {w : World} (hw : w.heap.Reached) (inv : Invoke) (env : ScopeId)
    (x : Ident) {v : Value} (hv : v.IsPlain) :
    (∃ slot last w', w.heap.pointer? env x.name = some slot ∧
      w.heap.Resolves Heap.maxHops slot last ∧ (w.heap.Rests slot → last = slot) ∧
      store env x.name v x.span w = .value () w' ∧ w.Assigned last v w' ∧
      plainExpr inv env (.var x) w' = .value v w' ∧
      (∀ q span, w.heap.Resolves Heap.maxHops q last →
        plain (.pointer q) span w' = .value v w') ∧
      (∀ i m, w.heap.NameResolves i m.name last → plainExpr inv i (.var m) w' = .value v w') ∧
      (∀ q span, ¬ w.heap.Resolves Heap.maxHops q last →
        plain (.pointer q) span w' = (plain (.pointer q) span w).within w') ∧
      (∀ i m, ¬ w.heap.NameResolves i m.name last →
        plainExpr inv i (.var m) w' = (plainExpr inv i (.var m) w).within w')) ∨
    ((∀ slot last, w.heap.pointer? env x.name = some slot →
        ¬ w.heap.Resolves Heap.maxHops slot last) ∧
      ∃ f, store env x.name v x.span w = .fault f w) := by
  have hwf := hw.wellFormed
  rcases Eval.store_cases env x v w with ⟨slot, last, hp, hr, hstore⟩ | hfail
  · left
    have hname : w.heap.NameResolves env x.name last :=
      ⟨slot, hp, hr.mono (Nat.le_succ Heap.maxHops)⟩
    obtain ⟨hlast, hrest, -⟩ := Eval.load_of_nameResolves hwf hname
    have hload : (w.stored last v).heap.load last = some v :=
      Heap.load_store_self hlast (some v)
    have hread : ∀ i m, w.heap.NameResolves i m.name last →
        plainExpr inv i (.var m) (w.stored last v) = .value v (w.stored last v) := by
      intro i m hm
      have hm' : (w.stored last v).heap.NameResolves i m.name last :=
        (Heap.nameResolves_store_iff hlast hrest hv).mpr hm
      exact Eval.plainExpr_var_of_nameResolves hm' hload
    refine ⟨slot, last, w.stored last v, hp, hr, fun hslot => hslot.resolves_iff.mp hr, hstore,
      World.assigned_stored hlast v, hread env x hname, ?_, hread, ?_, ?_⟩
    · intro q span hq
      have hq' : (w.stored last v).heap.Resolves Heap.maxHops q last :=
        (Heap.resolves_store_iff hlast hrest hv).mpr hq
      rw [Eval.plain_pointer_of_resolves hq', hload]
      rfl
    · intro q span hq
      exact Eval.plain_pointer_stored hlast hrest hv hq span
    · intro i m hm
      exact Eval.plainExpr_var_stored hwf hlast hrest hv hm
  · exact .inr hfail

/-- The heap after `let y = 5` and `let x = &y`. -/
def aliasedHeap : Heap :=
  (Session.initialHeap.define Session.globals "y" (some (.number (.int 5)))).define
    Session.globals "x" (some (.pointer ⟨Session.globals, "y"⟩))

/-- A world in which `x` is another name for `y`. -/
def aliased : World :=
  ⟨aliasedHeap, "", []⟩

/-- `let y=5`, a line feed and `let x=&y` -/
def aliasing : List Source.Glyph :=
  Source.Glyph.ofBytes
    [108, 101, 116, 32, 121, 61, 53, 10, 108, 101, 116, 32, 120, 61, 38, 121]

theorem reached_aliasedHeap : aliasedHeap.Reached := by
  have hend : Session.Ends ((Session.start ⟨"aliased.ham", 10⟩).evaluate · aliasing)
      ⟨.value .unit, "", [], ⟨⟨"aliased.ham", 10⟩, aliasedHeap⟩⟩ := by
    set_option maxRecDepth 8000 in exact ⟨1, rfl, trivial⟩
  exact ⟨_, 1, [], _, .step (.start _) hend, ⟨[], rfl, .refl⟩, rfl⟩

/-- In that world both names lead to the binding of `y`. -/
theorem nameResolves_aliased {m : String} (hm : m = "x" ∨ m = "y") :
    ∃ slot, aliased.heap.pointer? Session.globals m = some slot ∧
      aliased.heap.Resolves Heap.maxHops slot ⟨Session.globals, "y"⟩ := by
  have hrest : aliased.heap.Rests ⟨Session.globals, "y"⟩ := nofun
  rcases hm with rfl | rfl
  · exact ⟨⟨Session.globals, "x"⟩, rfl, 1, by decide, .hop rfl (.here _), hrest⟩
  · exact ⟨⟨Session.globals, "y"⟩, rfl, 0, by decide, .here _, hrest⟩

/-- An assignment to the one name is read from the other one, and from no third one. -/
theorem read_after_store_aliased :
    let inv := Eval.invoke ⟨10, 10, false⟩ 10
    aliased.heap.Reached ∧ (Value.bool true).IsPlain ∧
    ∃ w', store Session.globals "x" (.bool true) default aliased = .value () w' ∧
      plainExpr inv Session.globals (.var ⟨"y", default⟩) w' = .value (.bool true) w' ∧
      plainExpr inv Session.globals (.var ⟨"print", default⟩) w' =
        .value (.builtin .print) w' := by
  intro inv
  have hplain : (Value.bool true).IsPlain := nofun
  refine ⟨reached_aliasedHeap, hplain, ?_⟩
  obtain ⟨slotx, hx, hrx⟩ := nameResolves_aliased (.inl rfl)
  obtain ⟨sloty, hy, hry⟩ := nameResolves_aliased (.inr rfl)
  rcases read_after_store (w := aliased) reached_aliasedHeap inv Session.globals ⟨"x", default⟩
    hplain with ⟨slot, last, w', hp, hr, -, hstore, -, -, -, hname, -, hother⟩ | ⟨hfail, -⟩
  · obtain rfl := Option.some.inj (hx.symm.trans hp)
    obtain rfl := hrx.unique hr
    refine ⟨w', hstore, hname _ _ ⟨sloty, hy, hry.mono (Nat.le_succ _)⟩, ?_⟩
    refine hother Session.globals ⟨"print", default⟩ ?_
    rintro ⟨p, hp, hr⟩
    have hrest : aliased.heap.Rests ⟨Session.globals, "print"⟩ := nofun
    obtain rfl : ⟨Session.globals, "print"⟩ = p := Option.some.inj hp
    exact absurd (congrArg Pointer.name (hrest.resolves_iff.mp hr)) (by decide)
  · exact absurd hrx (hfail slotx _ hx)

/-! ## A name assigned to itself -/

/-- The statement `x = x`, with the places of its parts. -/
def Stmt.selfAssign (x : String) (target value whole : Span) : Stmt :=
  .expr (.assign ⟨x, target⟩ (.var ⟨x, value⟩) whole) whole

/-- Running does no harm: it ends with a value, and every name that reads to a value before, from
whatever scope, reads to the same one after it. -/
def Eval.Harmless (inv : Invoke) (s : Eval Flow) (w : World) : Prop :=
  ∃ flow w', s w = .value flow w' ∧ ∀ i m u,
    plainExpr inv i (.var m) w = .value u w → plainExpr inv i (.var m) w' = .value u w'

/-- The binding `last` has got a pointer that leads back to it: the names that have led to it cannot
be read any more, and the other names that can be read keep their values. -/
structure Eval.Circled (inv : Invoke) (last p : Pointer) (w w' : World) : Prop where
  assigned : w.Assigned last (.pointer p) w'
  broken : ∀ i m, w.heap.NameResolves i m.name last → ∃ q : Pointer,
    plainExpr inv i (.var m) w' = .fault ⟨.circularPointer q.name, m.span⟩ w'
  kept : ∀ i m u, ¬ w.heap.NameResolves i m.name last →
    plainExpr inv i (.var m) w = .value u w → plainExpr inv i (.var m) w' = .value u w'

namespace Eval

variable {inv : Invoke} {maxTurns : Nat} {env : ScopeId} {x : String} {target value whole : Span}
  {p q last : Pointer} {v : Value} {w w' : World}

theorem stmt_selfAssign_of_value (hv : expr inv env (.var ⟨x, value⟩) w = .value v w)
    (hstore : store env x v target w = .value () w') :
    stmt inv maxTurns env (.selfAssign x target value whole) w = .value (.next v) w' := by
  have hassign : expr inv env (.assign ⟨x, target⟩ (.var ⟨x, value⟩) whole) w = .value v w' := by
    rw [expr, bind_of_value hv, bind_of_value hstore]
    rfl
  rw [Stmt.selfAssign, stmt, bind_of_value hassign]
  rfl

theorem stmt_selfAssign_of_fault {f : RuntimeFault}
    (hv : expr inv env (.var ⟨x, value⟩) w = .value v w)
    (hstore : store env x v target w = .fault f w') :
    stmt inv maxTurns env (.selfAssign x target value whole) w = .fault f w' := by
  have hassign : expr inv env (.assign ⟨x, target⟩ (.var ⟨x, value⟩) whole) w = .fault f w' := by
    rw [expr, bind_of_value hv, bind_of_fault hstore]
  rw [Stmt.selfAssign, stmt, bind_of_fault hassign]

/-- A binding that holds no pointer is given what it has. -/
theorem stmt_selfAssign_of_rests (hp : w.heap.pointer? env x = some p)
    (hv : w.heap.load p = some v) (hrest : w.heap.Rests p) :
    stmt inv maxTurns env (.selfAssign x target value whole) w = .value (.next v) w := by
  have hsame : w.stored p v = w := by
    have hfind : w.heap.find? p.scope p.name = some (some v) := by
      obtain ⟨slot, hslot⟩ := Option.isSome_iff_exists.mp (Heap.binds_of_pointer? hp)
      rw [Heap.load, hslot] at hv
      rw [hslot, ← hv]
      rfl
    rw [World.stored, Heap.store, Heap.define_of_find? hfind]
  have hstore := store_of_resolves (x := ⟨x, target⟩) hp (hrest.resolves_iff.mpr rfl) v
  rw [hsame] at hstore
  exact stmt_selfAssign_of_value (expr_var_of_load hp hv) hstore

/-- Once the end of the chain of `slot` holds what `slot` holds, the chain is a circle, and nothing
that comes to it has an end. -/
theorem not_resolves_stored_circle {hops hops' : Nat} {slot : Pointer}
    (hlast : w.heap.Binds last) (hrest : w.heap.Rests last)
    (hslot : w.heap.load slot = some (.pointer p)) (hr : w.heap.Resolves hops slot last)
    (hq : w.heap.Resolves hops' q last) (hops'' : Nat) (l : Pointer) :
    ¬ (w.stored last (.pointer p)).heap.Resolves hops'' q l := by
  have hothers : ∀ r, r ≠ last → (w.stored last (.pointer p)).heap.load r = w.heap.load r :=
    fun r hne => Heap.load_store_of_ne hlast _ hne
  obtain ⟨n, -, hchain, -⟩ := hr
  obtain ⟨m, -, hcome, -⟩ := hq
  cases hchain with
  | here => exact absurd hslot (hrest p)
  | hop hload hchain =>
      cases hslot.symm.trans hload
      -- from the last binding to `p`, and on to the last binding
      have hback : (w.stored last (.pointer p)).heap.load last = some (.pointer p) :=
        Heap.load_store_self hlast _
      exact Heap.not_resolves_of_circle (.hop hback (hchain.of_others hrest hothers))
        (hcome.of_others hrest hothers)

/-- A name that has led to the last binding of the chain is broken by the circle. -/
theorem plainExpr_var_stored_circle {i : ScopeId} {m : Ident} {slot : Pointer}
    (hw : w.heap.WellFormed) (hslot : w.heap.load slot = some (.pointer p))
    (hr : w.heap.Resolves Heap.maxHops slot last) (hm : w.heap.NameResolves i m.name last) :
    ∃ q : Pointer, plainExpr inv i (.var m) (w.stored last (.pointer p)) =
      .fault ⟨.circularPointer q.name, m.span⟩ (w.stored last (.pointer p)) := by
  obtain ⟨hlast, hrest, -⟩ := load_of_nameResolves hw hm
  obtain ⟨b, hb, hbr⟩ := hm
  have hpointer : (w.stored last (.pointer p)).heap.pointer? i m.name = some b :=
    (Heap.pointer?_store hlast _ i m.name).trans hb
  obtain ⟨q, -, hfault⟩ := plainExpr_var_of_not_nameResolves inv hpointer (by
    rintro l ⟨b', hb', hl⟩
    obtain rfl := Option.some.inj (hpointer.symm.trans hb')
    exact not_resolves_stored_circle hlast hrest hslot hr hbr _ l hl)
  exact ⟨q, hfault⟩

/-- A name that has led to another binding reads as before, whatever has been stored. -/
theorem plainExpr_var_stored_of_value {i : ScopeId} {m : Ident} {u : Value}
    (hw : w.heap.WellFormed) (hlast : w.heap.Binds last) (hrest : w.heap.Rests last)
    (hm : ¬ w.heap.NameResolves i m.name last) (hu : plainExpr inv i (.var m) w = .value u w) :
    plainExpr inv i (.var m) (w.stored last v) = .value u (w.stored last v) := by
  have hothers : ∀ r, r ≠ last → (w.stored last v).heap.load r = w.heap.load r :=
    fun r hne => Heap.load_store_of_ne hlast _ hne
  obtain ⟨l, hl, hload⟩ := exists_nameResolves_of_value hw hu
  have hne : l ≠ last := by
    rintro rfl
    exact hm hl
  obtain ⟨b, hb, hbr⟩ := hl
  have hpointer : (w.stored last v).heap.pointer? i m.name = some b :=
    (Heap.pointer?_store hlast _ i m.name).trans hb
  exact plainExpr_var_of_nameResolves ⟨b, hpointer, hbr.of_others hne hrest hothers⟩
    ((hothers l hne).trans hload)

/-- A name that holds a pointer: the assignment fails, or it closes the circle. -/
theorem stmt_selfAssign_of_points {slot : Pointer} (hw : w.heap.WellFormed)
    (hslot : w.heap.pointer? env x = some slot) (hp : w.heap.load slot = some (.pointer p)) :
    (∃ f, stmt inv maxTurns env (.selfAssign x target value whole) w = .fault f w) ∨
    ∃ last w', stmt inv maxTurns env (.selfAssign x target value whole) w =
        .value (.next (.pointer p)) w' ∧
      w.heap.NameResolves env x last ∧ Circled inv last p w w' := by
  have hexpr : expr inv env (.var ⟨x, value⟩) w = .value (.pointer p) w :=
    expr_var_of_load hslot hp
  rcases store_cases env ⟨x, target⟩ (.pointer p) w with
    ⟨slot', last, hslot', hr, hstore⟩ | ⟨-, f, hstore⟩
  · cases hslot.symm.trans hslot'
    have hname : w.heap.NameResolves env x last := ⟨slot, hslot, hr.mono (Nat.le_succ _)⟩
    obtain ⟨hlast, hrest, -⟩ := load_of_nameResolves (m := ⟨x, target⟩) hw hname
    refine .inr ⟨last, w.stored last (.pointer p), stmt_selfAssign_of_value hexpr hstore, hname,
      World.assigned_stored hlast _, ?_, ?_⟩
    · intro i m hm
      exact plainExpr_var_stored_circle hw hp hr hm
    · intro i m u hm hu
      exact plainExpr_var_stored_of_value hw hlast hrest hm hu
  · exact .inl ⟨f, stmt_selfAssign_of_fault hexpr hstore⟩

end Eval

/-- **A name assigned to itself.**  Let `x` read to a value in a heap that a session comes to.  Then
`x = x` does no harm exactly if `x` itself is bound to a plain value, and in that case it leaves
everything as it is.  If `x` is bound to a pointer, then either the assignment fails, and leaves
everything as it is, or the last binding of the chain gets this pointer.  The chain is a circle
then: `x` and all other names that led to this binding cannot be read any more, and the rest of the
names that could be read keep their values. -/
theorem selfAssign_harmless_iff {w : World} (hw : w.heap.Reached) (inv : Invoke) (maxTurns : Nat)
    (env : ScopeId) (x : String) (target value whole : Span) {u : Value}
    (hx : plainExpr inv env (.var ⟨x, value⟩) w = .value u w) :
    (Eval.Harmless inv (stmt inv maxTurns env (.selfAssign x target value whole)) w ↔
      ∀ p, w.heap.get? env x ≠ some (some (.pointer p))) ∧
    ((∀ p, w.heap.get? env x ≠ some (some (.pointer p))) →
      stmt inv maxTurns env (.selfAssign x target value whole) w = .value (.next u) w) ∧
    ∀ p, w.heap.get? env x = some (some (.pointer p)) →
      (∃ f, stmt inv maxTurns env (.selfAssign x target value whole) w = .fault f w) ∨
      ∃ last w', stmt inv maxTurns env (.selfAssign x target value whole) w =
          .value (.next (.pointer p)) w' ∧
        w.heap.NameResolves env x last ∧ Eval.Circled inv last p w w' := by
  have hwf := hw.wellFormed
  obtain ⟨last, hname, hload⟩ := Eval.exists_nameResolves_of_value hwf hx
  obtain ⟨slot, hslot, hr⟩ := hname
  have hget : w.heap.get? env x = some (w.heap.load slot) := Heap.get?_of_pointer? hslot
  have hplain : (∀ p, w.heap.get? env x ≠ some (some (.pointer p))) →
      stmt inv maxTurns env (.selfAssign x target value whole) w = .value (.next u) w := by
    intro hno
    have hslotrest : w.heap.Rests slot := fun p hp => hno p (by rw [hget, hp])
    obtain rfl := hslotrest.resolves_iff.mp hr
    exact Eval.stmt_selfAssign_of_rests hslot hload hslotrest
  have hpointer : ∀ p, w.heap.get? env x = some (some (.pointer p)) →
      (∃ f, stmt inv maxTurns env (.selfAssign x target value whole) w = .fault f w) ∨
      ∃ last w', stmt inv maxTurns env (.selfAssign x target value whole) w =
          .value (.next (.pointer p)) w' ∧
        w.heap.NameResolves env x last ∧ Eval.Circled inv last p w w' := by
    intro p hp
    rw [hget] at hp
    exact Eval.stmt_selfAssign_of_points hwf hslot (Option.some.inj hp)
  refine ⟨⟨?_, ?_⟩, hplain, hpointer⟩
  · rintro ⟨flow, w', hs, hkeep⟩ p hp
    rcases hpointer p hp with ⟨f, hfail⟩ | ⟨last', w'', hs', hname', hcircled⟩
    · cases hs.symm.trans hfail
    · cases hs.symm.trans hs'
      obtain ⟨q, hfault⟩ := hcircled.broken env ⟨x, value⟩ hname'
      cases (hkeep env ⟨x, value⟩ u hx).symm.trans hfault
  · intro hno
    exact ⟨_, w, hplain hno, fun _ _ _ hu => hu⟩

/-- Where `x` is bound to a pointer to `y`, the statement `x = x` breaks both of them. -/
theorem selfAssign_harms_aliased :
    let inv := Eval.invoke ⟨10, 10, false⟩ 10
    let x : Ident := ⟨"x", default⟩
    let y : Ident := ⟨"y", default⟩
    aliased.heap.Reached ∧
    plainExpr inv Session.globals (.var x) aliased = .value (.number (.int 5)) aliased ∧
    plainExpr inv Session.globals (.var y) aliased = .value (.number (.int 5)) aliased ∧
    (∃ flow w', stmt inv 10 Session.globals (.selfAssign "x" default default default) aliased =
        .value flow w' ∧
      plainExpr inv Session.globals (.var x) w' = .fault ⟨.circularPointer "y", default⟩ w' ∧
      plainExpr inv Session.globals (.var y) w' = .fault ⟨.circularPointer "y", default⟩ w') ∧
    ¬ Eval.Harmless inv (stmt inv 10 Session.globals
      (.selfAssign "x" default default default)) aliased := by
  intro inv x y
  refine ⟨reached_aliasedHeap, rfl, rfl, ⟨_, _, rfl, rfl, rfl⟩, ?_⟩
  rintro ⟨flow, w', hs, hkeep⟩
  obtain ⟨rfl, rfl⟩ := Outcome.value.inj hs
  cases hkeep Session.globals x (.number (.int 5)) rfl

/-- Where `y` is bound to a number, the statement `y = y` does nothing. -/
theorem selfAssign_harmless_iff_aliased :
    let inv := Eval.invoke ⟨10, 10, false⟩ 10
    aliased.heap.Reached ∧
    plainExpr inv Session.globals (.var ⟨"y", default⟩) aliased =
      .value (.number (.int 5)) aliased ∧
    Eval.Harmless inv (stmt inv 10 Session.globals
      (.selfAssign "y" default default default)) aliased ∧
    ¬ Eval.Harmless inv (stmt inv 10 Session.globals
      (.selfAssign "x" default default default)) aliased := by
  intro inv
  refine ⟨reached_aliasedHeap, rfl, ?_, ?_⟩
  · refine (selfAssign_harmless_iff (w := aliased) reached_aliasedHeap inv 10 Session.globals "y"
      default default default (u := .number (.int 5)) rfl).1.mpr ?_
    intro p hp
    cases hp
  · intro hharmless
    exact (selfAssign_harmless_iff (w := aliased) reached_aliasedHeap inv 10 Session.globals "x"
      default default default (u := .number (.int 5)) rfl).1.mp hharmless _ rfl

end

end HamScript
