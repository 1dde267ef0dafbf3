/-
# Lookups after a change

What `newScope` and `define` do to the three views of a heap: its size, the parent of a scope, and
the binding of a name in a scope.  Everything else about bindings is derived from these equations;
nothing after this module opens the array of scopes.

`Grows h h'` says that `h'` has all that `h` has: no scope is gone, none has another parent, and no
name that was bound has become unbound.  What is bound to the names may have changed.  Conversely
`AddsOnly D h h'` says that the scopes of `h` bind in `h'` no names but those that they have bound
before and those of which `D` holds.
-/
import HamScript.Heap

namespace HamScript

namespace Bindings

theorem find?_nil (m : String) : find? [] m = none := rfl

theorem find?_cons (b : String × Slot) (bs : Bindings) (m : String) :
    find? (b :: bs) m = if m = b.1 then some b.2 else find? bs m := by
  obtain ⟨n, slot⟩ := b
  by_cases h : m = n
  · simp [find?, h]
  · have hb : (m == n) = false := by simpa using h
    simp [find?, List.lookup_cons, hb, h]

theorem find?_put (n : String) (slot : Slot) (m : String) :
    ∀ bs : Bindings, find? (put n slot bs) m = if m = n then some slot else find? bs m
  | [] => by simp [put, find?_cons, find?_nil]
  | b :: bs => by
      by_cases hb : b.1 = n
      · -- the first binding of the name gives way
        simp only [put, if_pos hb, find?_cons]
        by_cases hm : m = n <;> simp [hm, hb]
      · simp only [put, if_neg hb, find?_cons, find?_put n slot m bs]
        by_cases hm : m = n
        · simp [hm, Ne.symm hb]
        · simp [hm]

end Bindings

namespace Heap

/-! ## A new scope -/

theorem size_newScope (h : Heap) (parent : Option ScopeId) :
    (h.newScope parent).2.scopes.size = h.scopes.size + 1 := by
  simp [newScope]

theorem parent?_newScope (h : Heap) (parent : Option ScopeId) (i : ScopeId) :
    (h.newScope parent).2.parent? i = if i = h.scopes.size then parent else h.parent? i := by
  by_cases hi : i = h.scopes.size <;> simp [newScope, parent?, Array.getElem?_push, hi]

theorem find?_newScope (h : Heap) (parent : Option ScopeId) (i : ScopeId) (m : String) :
    (h.newScope parent).2.find? i m = h.find? i m := by
  by_cases hi : i = h.scopes.size <;>
    simp [newScope, find?, Array.getElem?_push, hi, Bindings.find?_nil]

/-! ## A definition -/

theorem size_define (h : Heap) (i : ScopeId) (n : String) (slot : Slot) :
    (h.define i n slot).scopes.size = h.scopes.size := by
  simp [define]

theorem parent?_define (h : Heap) (i : ScopeId) (n : String) (slot : Slot) (j : ScopeId) :
    (h.define i n slot).parent? j = h.parent? j := by
  simp only [define, parent?, Array.getElem?_modify]
  by_cases hj : i = j
  · cases h.scopes[j]? <;> simp [hj]
  · simp [hj]

theorem find?_eq_none_of_size_le {h : Heap} {i : ScopeId} (hi : h.scopes.size ≤ i) (m : String) :
    h.find? i m = none := by
  simp [find?, Array.getElem?_eq_none hi]

/-- A scope that binds something is one of the heap. -/
theorem lt_size_of_find? {h : Heap} {i : ScopeId} {m : String} {slot : Slot}
    (hf : h.find? i m = some slot) : i < h.scopes.size := by
  refine Nat.lt_of_not_le fun hi => ?_
  rw [find?_eq_none_of_size_le hi] at hf
  cases hf

theorem find?_define {h : Heap} {i : ScopeId} (hi : i < h.scopes.size) (n : String) (slot : Slot)
    (j : ScopeId) (m : String) :
    (h.define i n slot).find? j m = if j = i ∧ m = n then some slot else h.find? j m := by
  simp only [define, find?, Array.getElem?_modify]
  by_cases hj : i = j
  · subst hj
    simp [hi, Bindings.find?_put]
  · simp [hj, Ne.symm hj]

/-- Where there is no scope, nothing is defined. -/
theorem find?_define_of_size_le {h : Heap} {i : ScopeId} (hi : h.scopes.size ≤ i) (n : String)
    (slot : Slot) (j : ScopeId) (m : String) : (h.define i n slot).find? j m = h.find? j m := by
  simp only [define, find?, Array.getElem?_modify]
  by_cases hj : i = j
  · subst hj
    simp [Array.getElem?_eq_none hi]
  · simp [hj]

/-! ## Looking outward -/

theorem resolveFrom_succ (h : Heap) (m : String) (steps : Nat) (i : ScopeId) :
    h.resolveFrom m (steps + 1) i =
      if (h.find? i m).isSome then some i else (h.parent? i).bind (h.resolveFrom m steps) := by
  rw [resolveFrom]
  cases hs : h.scopes[i]? with
  | none => simp [find?, parent?, hs]
  | some s =>
      have hfind : h.find? i m = s.bindings.find? m := by simp [find?, hs]
      have hparent : h.parent? i = s.parent := by simp [parent?, hs]
      simp only [hfind, hparent]
      cases s.parent <;> rfl

/-! ## Growth -/

/-- `h'` has every scope of `h`, with the same parent, and every binding that `h` has. -/
structure Grows (h h' : Heap) : Prop where
  size_le : h.scopes.size ≤ h'.scopes.size
  parent_eq : ∀ i, i < h.scopes.size → h'.parent? i = h.parent? i
  bound : ∀ i m, (h.find? i m).isSome → (h'.find? i m).isSome

theorem Grows.refl (h : Heap) : Grows h h :=
  ⟨Nat.le_refl _, fun _ _ => rfl, fun _ _ hb => hb⟩

theorem Grows.trans {h₁ h₂ h₃ : Heap} (h : Grows h₁ h₂) (h' : Grows h₂ h₃) : Grows h₁ h₃ where
  size_le := Nat.le_trans h.size_le h'.size_le
  parent_eq i hi := by
    rw [h'.parent_eq i (Nat.lt_of_lt_of_le hi h.size_le), h.parent_eq i hi]
  bound i m hb := h'.bound i m (h.bound i m hb)

theorem grows_newScope (h : Heap) (parent : Option ScopeId) : Grows h (h.newScope parent).2 where
  size_le := by rw [size_newScope]; omega
  parent_eq i hi := by rw [parent?_newScope, if_neg (Nat.ne_of_lt hi)]
  bound i m hb := by rw [find?_newScope]; exact hb

theorem grows_define {h : Heap} {i : ScopeId} (hi : i < h.scopes.size) (n : String) (slot : Slot) :
    Grows h (h.define i n slot) where
  size_le := Nat.le_of_eq (size_define h i n slot).symm
  parent_eq j _ := parent?_define h i n slot j
  bound j m hb := by
    rw [find?_define hi]
    split
    · rfl
    · exact hb

/-! ## Names that are added -/

/-- A name that a scope of `h` binds in `h'` and not in `h` is one of which `D` holds. -/
def AddsOnly (D : ScopeId → String → Prop) (h h' : Heap) : Prop :=
  ∀ i m, i < h.scopes.size → (h'.find? i m).isSome → (h.find? i m).isSome ∨ D i m

variable {D : ScopeId → String → Prop}

theorem addsOnly_refl (h : Heap) : AddsOnly D h h :=
  fun _ _ _ hb => .inl hb

theorem AddsOnly.trans {h₁ h₂ h₃ : Heap} (h : AddsOnly D h₁ h₂)
    (hle : h₁.scopes.size ≤ h₂.scopes.size) (h' : AddsOnly D h₂ h₃) : AddsOnly D h₁ h₃ := by
  intro i m hi hb
  rcases h' i m (Nat.lt_of_lt_of_le hi hle) hb with hb | hd
  · exact h i m hi hb
  · exact .inr hd

theorem addsOnly_newScope (h : Heap) (parent : Option ScopeId) :
    AddsOnly D h (h.newScope parent).2 := by
  intro i m _ hb
  rw [find?_newScope] at hb
  exact .inl hb

theorem addsOnly_define {h : Heap} {i : ScopeId} (hi : i < h.scopes.size) {n : String}
    (hn : (h.find? i n).isSome ∨ D i n) (slot : Slot) : AddsOnly D h (h.define i n slot) := by
  intro j m _ hb
  rw [find?_define hi] at hb
  split at hb
  · next hjm =>
    obtain ⟨rfl, rfl⟩ := hjm
    exact hn
  · exact .inl hb

/-! ## The names of a scope -/

theorem Bindings.mem_names_iff (bs : Bindings) (m : String) :
    m ∈ bs.names ↔ (bs.find? m).isSome := by
  induction bs with
  | nil => simp [Bindings.names, Bindings.find?_nil]
  | cons b bs ih =>
      rw [Bindings.find?_cons]
      by_cases hm : m = b.1
      · simp [Bindings.names, hm]
      · simpa [Bindings.names, hm] using ih

/-- The names of a scope are those that are bound in it. -/
theorem mem_names_iff (h : Heap) (i : ScopeId) (m : String) :
    m ∈ h.names i ↔ (h.find? i m).isSome := by
  cases hs : h.scopes[i]? with
  | none => simp [names, find?, hs]
  | some s => simpa [names, find?, hs] using Bindings.mem_names_iff s.bindings m

end Heap

end HamScript
