/-
# Values and heaps that are alike

Values are alike if they are equal but for the bodies of functions, which are alike as trees.  Heaps
are alike if they have the same scopes with the same parents, and the names that may be mentioned are
bound to values that are alike.  Other names may be bound to anything, or not at all.

Proved here: heaps that are alike stay so when scopes are made and names are bound, and whatever is
looked up in them is alike, down to the texts of values.  A pointer leads to the same binding in
both.
-/
import HamScript.Proofs.Heap.Lookup
import HamScript.Proofs.Syntax.Likeness

namespace HamScript

open Source (Span)

structure Closure.Alike (L : Likeness) (f f' : Closure) : Prop where
  name_eq : f.name? = f'.name?
  params_eq : f.params = f'.params
  allowed : ∀ m ∈ f.params, L.names m
  body : Stmt.AllAlike L false f.body f'.body
  scope_eq : f.scope = f'.scope

inductive Value.Alike (L : Likeness) : Value → Value → Prop
  | number (n : Number) : Value.Alike L (.number n) (.number n)
  | string (t : String) : Value.Alike L (.string t) (.string t)
  | bool (b : Bool) : Value.Alike L (.bool b) (.bool b)
  | unit : Value.Alike L .unit .unit
  | function {f f' : Closure} : f.Alike L f' → Value.Alike L (.function f) (.function f')
  | builtin (b : Builtin) : Value.Alike L (.builtin b) (.builtin b)
  | pointer {p : Pointer} : L.names p.name → Value.Alike L (.pointer p) (.pointer p)

/-- Two bindings are both empty, or hold values that are alike. -/
abbrev Slot.Alike (L : Likeness) : Slot → Slot → Prop :=
  Option.Rel (Value.Alike L)

structure Heap.Alike (L : Likeness) (h h' : Heap) : Prop where
  size_eq : h.scopes.size = h'.scopes.size
  parent_eq : ∀ i, h.parent? i = h'.parent? i
  slots : ∀ i m, L.names m → Option.Rel (Slot.Alike L) (h.find? i m) (h'.find? i m)

section
variable {L : Likeness}

/-! ## Values -/

theorem Closure.Alike.shownName_eq {f f' : Closure} (h : f.Alike L f') :
    f.shownName = f'.shownName := by
  rw [Closure.shownName, Closure.shownName, h.name_eq]

theorem Value.Alike.kind_eq {v v' : Value} (h : v.Alike L v') : v.kind = v'.kind := by
  cases h <;> rfl

theorem Value.Alike.ownText_eq {v v' : Value} (h : v.Alike L v') : v.ownText = v'.ownText := by
  cases h with
  | function hf => simp only [Value.ownText, hf.name_eq]
  | number | string | bool | unit | builtin | pointer => rfl

theorem Slot.Alike.text_eq {slot slot' : Slot} (h : Slot.Alike L slot slot') :
    Value.slotText slot = Value.slotText slot' := by
  cases h with
  | none => rfl
  | some hv => exact hv.ownText_eq

namespace Heap.Alike

variable {h h' : Heap}

/-! ## Changes -/

theorem newScope (hh : h.Alike L h') (parent : Option ScopeId) :
    (h.newScope parent).2.Alike L (h'.newScope parent).2 where
  size_eq := by rw [size_newScope, size_newScope, hh.size_eq]
  parent_eq i := by rw [parent?_newScope, parent?_newScope, hh.size_eq, hh.parent_eq]
  slots i m hm := by
    rw [find?_newScope, find?_newScope]
    exact hh.slots i m hm

theorem define (hh : h.Alike L h') (i : ScopeId) (n : String) {slot slot' : Slot}
    (hslot : Slot.Alike L slot slot') : (h.define i n slot).Alike L (h'.define i n slot') where
  size_eq := by rw [size_define, size_define, hh.size_eq]
  parent_eq j := by rw [parent?_define, parent?_define, hh.parent_eq]
  slots j m hm := by
    by_cases hi : i < h.scopes.size
    · rw [find?_define hi, find?_define (hh.size_eq ▸ hi)]
      split
      · exact .some hslot
      · exact hh.slots j m hm
    · have hi := Nat.le_of_not_lt hi
      rw [find?_define_of_size_le hi, find?_define_of_size_le (hh.size_eq ▸ hi)]
      exact hh.slots j m hm

/-- Binding many names, one after the other. -/
theorem defineAll (i : ScopeId) {names : List String} {vs vs' : List Value}
    (hvs : List.Forall₂ (Value.Alike L) vs vs') (hh : h.Alike L h') :
    ((names.zip vs).foldl (fun h b => h.define i b.1 (some b.2)) h).Alike L
      ((names.zip vs').foldl (fun h b => h.define i b.1 (some b.2)) h') := by
  induction hvs generalizing names h h' with
  | nil => rw [List.zip_nil_right]; exact hh
  | @cons v v' vs vs' hv _ ih =>
      cases names with
      | nil => exact hh
      | cons n names => exact ih (hh.define i n (.some hv))

/-! ## Looking up -/

section
variable {m : String}

theorem isSome_find? (hh : h.Alike L h') (hm : L.names m) (i : ScopeId) :
    (h.find? i m).isSome = (h'.find? i m).isSome := by
  have hslot := hh.slots i m hm
  generalize h.find? i m = slot, h'.find? i m = slot' at hslot ⊢
  cases hslot <;> rfl

theorem resolveFrom_eq (hh : h.Alike L h') (hm : L.names m) (steps : Nat) (i : ScopeId) :
    h.resolveFrom m steps i = h'.resolveFrom m steps i := by
  induction steps generalizing i with
  | zero => rfl
  | succ steps ih =>
      rw [resolveFrom_succ, resolveFrom_succ, hh.isSome_find? hm, hh.parent_eq]
      cases h'.parent? i with
      | none => rfl
      | some p => simp only [Option.bind_some, ih]

theorem get? (hh : h.Alike L h') (hm : L.names m) (i : ScopeId) :
    Option.Rel (Slot.Alike L) (h.get? i m) (h'.get? i m) := by
  unfold Heap.get? Heap.resolve?
  rw [hh.resolveFrom_eq hm]
  cases h'.resolveFrom m (i + 1) i with
  | none => exact .none
  | some j => exact hh.slots j m hm

theorem pointer?_eq (hh : h.Alike L h') (hm : L.names m) (i : ScopeId) :
    h.pointer? i m = h'.pointer? i m := by
  unfold Heap.pointer? Heap.resolve?
  rw [hh.resolveFrom_eq hm]

theorem load (hh : h.Alike L h') {p : Pointer} (hp : L.names p.name) :
    Slot.Alike L (h.load p) (h'.load p) := by
  have hslot := hh.slots p.scope p.name hp
  unfold Heap.load
  generalize h.find? p.scope p.name = slot, h'.find? p.scope p.name = slot' at hslot ⊢
  cases hslot with
  | none => exact .none
  | some hslot => exact hslot

end

theorem name_of_pointer? {i : ScopeId} {m : String} {p : Pointer} (hp : h.pointer? i m = some p) :
    p.name = m := by
  obtain ⟨j, -, rfl⟩ := Option.map_eq_some_iff.mp hp
  rfl

/-- Chains of pointers go the same way, along names that may be mentioned. -/
theorem followFrom (hh : h.Alike L h') (hops : Nat) {p : Pointer} (hp : L.names p.name) :
    h.followFrom hops p = h'.followFrom hops p ∧
      ∀ q, h.followFrom hops p = some q → L.names q.name := by
  induction hops generalizing p with
  | zero => exact ⟨rfl, fun q hq => nomatch hq⟩
  | succ hops ih =>
      have hload := hh.load hp
      unfold Heap.followFrom
      generalize h.load p = slot, h'.load p = slot' at hload ⊢
      have stop : some p = some p ∧ ∀ q, some p = some q → L.names q.name :=
        ⟨rfl, fun q hq => Option.some.inj hq ▸ hp⟩
      cases hload with
      | none => exact stop
      | some hv =>
          cases hv with
          | pointer hq => exact ih hq
          | number | string | bool | unit | function | builtin => exact stop

theorem deref? (hh : h.Alike L h') {v v' : Value} (hv : v.Alike L v') :
    Option.Rel (Slot.Alike L) (h.deref? v) (h'.deref? v') := by
  cases hv with
  | @pointer p hp =>
      obtain ⟨hfollow, hnames⟩ := hh.followFrom maxHops hp
      show Option.Rel (Slot.Alike L) ((h.followFrom maxHops p).map h.load)
        ((h'.followFrom maxHops p).map h'.load)
      rw [← hfollow]
      cases hq : h.followFrom maxHops p with
      | none => exact .none
      | some q => exact .some (hh.load (hnames q hq))
  | function hf => exact .some (.some (.function hf))
  | number n => exact .some (.some (.number n))
  | string t => exact .some (.some (.string t))
  | bool b => exact .some (.some (.bool b))
  | unit => exact .some (.some .unit)
  | builtin b => exact .some (.some (.builtin b))

theorem text_eq (hh : h.Alike L h') {slot slot' : Slot} (hslot : Slot.Alike L slot slot') :
    h.text slot = h'.text slot' := by
  cases hslot with
  | none => rfl
  | some hv =>
      cases hv with
      | @pointer p hp =>
          have hd := hh.deref? (Value.Alike.pointer hp)
          simp only [Heap.text]
          generalize h.deref? (.pointer p) = d, h'.deref? (.pointer p) = d' at hd ⊢
          cases hd with
          | none => rfl
          | some htarget => exact Slot.Alike.text_eq htarget
      | function hf => exact (Value.Alike.function hf).ownText_eq
      | number | string | bool | unit | builtin => rfl

end Heap.Alike

/-! ## Values and heaps that are alike to themselves -/

/-- The spans in a value: those in the body of a function. -/
def Value.spans : Value → List Span
  | .function f => Stmt.allSpans f.body
  | _ => []

/-- The span is one in a function that the heap holds. -/
def Heap.HasSpan (h : Heap) (s : Span) : Prop :=
  ∃ i m v, h.find? i m = some (some v) ∧ s ∈ v.spans

theorem Value.alike_self (hnames : ∀ m, L.names m) (hloops : L.loops) {v : Value}
    (hs : ∀ s ∈ v.spans, L.spans s s ∧ L.strays s s) : v.Alike L v := by
  cases v with
  | function f =>
      have hbody := Stmt.allAlike_self hnames false hs (.inl hloops)
      exact .function ⟨rfl, rfl, fun m _ => hnames m, hbody, rfl⟩
  | number n => exact .number n
  | string t => exact .string t
  | bool b => exact .bool b
  | unit => exact .unit
  | builtin b => exact .builtin b
  | pointer p => exact .pointer (hnames p.name)

theorem Heap.alike_self (hnames : ∀ m, L.names m) (hloops : L.loops) {h : Heap}
    (hs : ∀ s, h.HasSpan s → L.spans s s ∧ L.strays s s) : h.Alike L h where
  size_eq := rfl
  parent_eq _ := rfl
  slots i m _ := by
    cases hf : h.find? i m with
    | none => exact .none
    | some slot =>
        cases slot with
        | none => exact .some .none
        | some v =>
            have hv : v.Alike L v :=
              Value.alike_self hnames hloops fun s hmem => hs s ⟨i, m, v, hf, hmem⟩
            exact .some (.some hv)

theorem Heap.alike_empty (L : Likeness) : Heap.empty.Alike L Heap.empty where
  size_eq := rfl
  parent_eq _ := rfl
  slots i m _ := by
    rw [find?_eq_none_of_size_le (Nat.zero_le i)]
    exact .none

end

/-! ## No demands -/

/-- The likeness that leaves everything open that can be left open. -/
def Likeness.any : Likeness :=
  ⟨fun _ _ => True, fun _ _ => True, fun _ => True, True⟩

theorem Value.alike_any (v : Value) : v.Alike .any v :=
  Value.alike_self (fun _ => trivial) trivial fun _ _ => ⟨trivial, trivial⟩

theorem Value.allAlike_any (vs : List Value) : List.Forall₂ (Value.Alike .any) vs vs :=
  List.forall₂_same.mpr fun v _ => v.alike_any

theorem Closure.alike_any (f : Closure) : f.Alike .any f := by
  cases (Value.function f).alike_any with
  | function hf => exact hf

theorem Heap.alike_any (h : Heap) : h.Alike .any h :=
  Heap.alike_self (fun _ => trivial) trivial fun _ _ => ⟨trivial, trivial⟩

end HamScript
