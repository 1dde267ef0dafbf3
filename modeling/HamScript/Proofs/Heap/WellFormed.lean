/-
# Well-formed heaps

A heap is well formed when every scope is younger than its parent and every binding holds a value
whose references can be followed: a pointer names a binding that exists, a function a scope that
exists.

Proved here: making a scope and changing a binding keep a heap well formed, and in a well-formed
heap no lookup and no chain of pointers ends at a binding that holds nothing.
-/
import HamScript.Proofs.Heap.Lookup

namespace HamScript

/-- The pointer names a binding of the heap. -/
def Heap.Binds (h : Heap) (p : Pointer) : Prop :=
  (h.find? p.scope p.name).isSome

/-- What a value refers to is in the heap. -/
def Value.LivesIn (h : Heap) : Value → Prop
  | .pointer p => h.Binds p
  | .function f => f.scope < h.scopes.size
  | _ => True

/-- The value is no pointer. -/
def Value.IsPlain (v : Value) : Prop :=
  ∀ p, v ≠ .pointer p

theorem Value.LivesIn.mono {h h' : Heap} {v : Value} (hv : v.LivesIn h) (hg : h.Grows h') :
    v.LivesIn h' := by
  cases v with
  | pointer p => exact hg.bound p.scope p.name hv
  | function f => exact Nat.lt_of_lt_of_le hv hg.size_le
  | number _ => trivial
  | string _ => trivial
  | bool _ => trivial
  | unit => trivial
  | builtin _ => trivial

namespace Heap

/-- Parents are older than their children, and every binding holds a value that lives in the
heap. -/
structure WellFormed (h : Heap) : Prop where
  older : ∀ i p, h.parent? i = some p → p < i
  filled : ∀ i m slot, h.find? i m = some slot → ∃ v, slot = some v ∧ v.LivesIn h

/-! ## Changes that keep a heap well formed -/

theorem Binds.lt_size {h : Heap} {p : Pointer} (hp : h.Binds p) : p.scope < h.scopes.size := by
  obtain ⟨slot, hs⟩ := Option.isSome_iff_exists.mp hp
  exact lt_size_of_find? hs

theorem wellFormed_empty : WellFormed empty where
  older i p hp := by simp [empty, parent?] at hp
  filled i m slot hf := by simp [empty, find?] at hf

theorem WellFormed.newScope {h : Heap} (hw : h.WellFormed) {parent : Option ScopeId}
    (hparent : ∀ p, parent = some p → p < h.scopes.size) :
    (h.newScope parent).2.WellFormed where
  older i p hp := by
    rw [parent?_newScope] at hp
    split at hp
    · next hi => rw [hi]; exact hparent p hp
    · exact hw.older i p hp
  filled i m slot hf := by
    rw [find?_newScope] at hf
    obtain ⟨v, rfl, hv⟩ := hw.filled i m slot hf
    exact ⟨v, rfl, hv.mono (grows_newScope h parent)⟩

theorem WellFormed.define {h : Heap} (hw : h.WellFormed) {i : ScopeId} (hi : i < h.scopes.size)
    (n : String) {v : Value} (hv : v.LivesIn h) : (h.define i n (some v)).WellFormed where
  older j p hp := by
    rw [parent?_define] at hp
    exact hw.older j p hp
  filled j m slot hf := by
    have hg := grows_define hi n (some v)
    rw [find?_define hi] at hf
    split at hf
    · cases hf
      exact ⟨v, rfl, hv.mono hg⟩
    · obtain ⟨u, rfl, hu⟩ := hw.filled j m slot hf
      exact ⟨u, rfl, hu.mono hg⟩

/-! ## Reading a well-formed heap -/

/-- The binding that a pointer names holds a value. -/
theorem WellFormed.load {h : Heap} (hw : h.WellFormed) {p : Pointer} (hp : h.Binds p) :
    ∃ v, h.load p = some v ∧ v.LivesIn h := by
  obtain ⟨slot, hs⟩ := Option.isSome_iff_exists.mp hp
  obtain ⟨v, rfl, hv⟩ := hw.filled _ _ _ hs
  exact ⟨v, by simp [Heap.load, hs], hv⟩

/-- A scope that is found to bind a name does bind it. -/
theorem binds_of_resolveFrom {h : Heap} {m : String} :
    ∀ (steps : Nat) (i j : ScopeId), h.resolveFrom m steps i = some j → h.Binds ⟨j, m⟩
  | 0, _, _, hr => nomatch hr
  | steps + 1, i, j, hr => by
      rw [resolveFrom] at hr
      split at hr
      · cases hr
      · next s hs =>
        split at hr
        · next hm =>
          cases hr
          simpa [Binds, find?, hs] using hm
        · split at hr
          · cases hr
          · exact binds_of_resolveFrom steps _ j hr

theorem binds_of_pointer? {h : Heap} {i : ScopeId} {m : String} {p : Pointer}
    (hp : h.pointer? i m = some p) : h.Binds p := by
  obtain ⟨j, hj, rfl⟩ := Option.map_eq_some_iff.mp hp
  exact binds_of_resolveFrom (i + 1) i j hj

theorem WellFormed.get? {h : Heap} (hw : h.WellFormed) {i : ScopeId} {m : String} {slot : Slot}
    (hg : h.get? i m = some slot) : ∃ v, slot = some v ∧ v.LivesIn h := by
  rw [Heap.get?] at hg
  split at hg
  · exact hw.filled _ m slot hg
  · cases hg

/-- Where a chain of pointers ends, there is a plain value. -/
theorem WellFormed.followFrom {h : Heap} (hw : h.WellFormed) :
    ∀ (hops : Nat) (p q : Pointer), h.Binds p → h.followFrom hops p = some q →
      h.Binds q ∧ ∃ v, h.load q = some v ∧ v.LivesIn h ∧ v.IsPlain
  | 0, _, _, _, hq => nomatch hq
  | hops + 1, p, q, hp, hq => by
      obtain ⟨v, hload, hv⟩ := hw.load hp
      rw [Heap.followFrom, hload] at hq
      split at hq
      · next r hr =>
        cases hr
        exact hw.followFrom hops r q hv hq
      · next hplain =>
        cases hq
        exact ⟨hp, v, hload, hv, fun r hr => hplain r (by rw [hr])⟩

/-- Dereferencing a value that lives in a well-formed heap gives a plain value, if it gives
anything; and it fails for pointers only. -/
theorem WellFormed.deref? {h : Heap} (hw : h.WellFormed) {v : Value} (hv : v.LivesIn h) :
    match h.deref? v with
    | some slot => ∃ u, slot = some u ∧ u.LivesIn h ∧ u.IsPlain
    | none => ∃ p, v = .pointer p := by
  cases v with
  | pointer p =>
      simp only [Heap.deref?]
      cases hq : h.follow? p with
      | none => exact ⟨p, rfl⟩
      | some q => exact (hw.followFrom maxHops p q hv hq).2
  | number n => exact ⟨_, rfl, hv, fun _ h => nomatch h⟩
  | string s => exact ⟨_, rfl, hv, fun _ h => nomatch h⟩
  | bool b => exact ⟨_, rfl, hv, fun _ h => nomatch h⟩
  | unit => exact ⟨_, rfl, hv, fun _ h => nomatch h⟩
  | function f => exact ⟨_, rfl, hv, fun _ h => nomatch h⟩
  | builtin b => exact ⟨_, rfl, hv, fun _ h => nomatch h⟩

/-! ## Chains of parents -/

/-- Going from parent to parent comes to an end at a scope without one. -/
inductive ChainEnds (h : Heap) : ScopeId → Prop
  | root {i : ScopeId} : h.parent? i = none → ChainEnds h i
  | child {i p : ScopeId} : h.parent? i = some p → ChainEnds h p → ChainEnds h i

theorem WellFormed.chainEnds {h : Heap} (hw : h.WellFormed) (i : ScopeId) : h.ChainEnds i := by
  induction i using Nat.strongRecOn with
  | ind i ih =>
      cases hp : h.parent? i with
      | none => exact .root hp
      | some p => exact .child hp (ih p (hw.older i p hp))

/-- A lookup that may look at more scopes than the one it begins with has before it finds the same:
the bound on its steps is never felt. -/
theorem WellFormed.resolveFrom_eq {h : Heap} (hw : h.WellFormed) (m : String) {i : ScopeId}
    {steps : Nat} (hi : i < steps) : h.resolveFrom m steps i = h.resolve? i m := by
  induction i using Nat.strongRecOn generalizing steps with
  | ind i ih =>
      obtain ⟨n, rfl⟩ := Nat.exists_eq_succ_of_ne_zero (Nat.ne_of_gt (Nat.zero_lt_of_lt hi))
      rw [resolve?, Nat.succ_eq_add_one, resolveFrom_succ, resolveFrom_succ]
      cases hp : h.parent? i with
      | none => rfl
      | some p =>
          have hlt := hw.older i p hp
          have hn := ih p hlt (Nat.lt_of_lt_of_le hlt (Nat.le_of_lt_succ hi))
          rw [Option.bind_some, Option.bind_some, hn, ih p hlt hlt]

end Heap

end HamScript
