/-
# Chains of pointers

A binding that holds a pointer leads to another binding, and so on: this is a chain.  It ends at a
binding that holds no pointer, if it ends at all.  `follow?` looks for that end and gives up after
`maxHops` hops.  Here the chain is a relation of its own, with the number of hops in it:

| `h.Chain n p q`       | after `n` hops from the binding of `p` there is that of `q`     |
| `h.Rests q`           | the binding of `q` holds no pointer                             |
| `h.Resolves k p q`    | the chain of `p` ends with `q`, after fewer than `k` hops       |

and following is deciding it (`followFrom_eq_some_iff`).

Then it is said what a change of one binding, the last one of a chain, does to all the other chains.
If the new value is no pointer, every chain ends where it did (`followFrom_store`).  If it is one,
the chains with other ends keep them (`Resolves.of_others`), and those that come to be circular have
no end (`not_resolves_of_circle`).
-/
import HamScript.Proofs.Heap.WellFormed

namespace HamScript

theorem Bindings.put_of_find? {bs : Bindings} {n : String} {slot : Slot}
    (h : bs.find? n = some slot) : bs.put n slot = bs := by
  induction bs with
  | nil => cases h
  | cons b bs ih =>
      rw [find?_cons] at h
      rw [put]
      by_cases hb : n = b.1
      · rw [if_pos hb] at h
        rw [if_pos hb.symm, hb, ← Option.some.inj h]
      · rw [if_neg hb] at h
        rw [if_neg (Ne.symm hb), ih h]

namespace Heap

variable {h h' : Heap} {p q r last : Pointer} {hops : Nat}

/-- After so many hops from the first binding there is the second one. -/
inductive Chain (h : Heap) : Nat → Pointer → Pointer → Prop
  | here (p : Pointer) : Chain h 0 p p
  | hop {n : Nat} {p q r : Pointer} :
      h.load p = some (.pointer q) → Chain h n q r → Chain h (n + 1) p r

/-- The binding holds no pointer. -/
def Rests (h : Heap) (p : Pointer) : Prop :=
  ∀ q, h.load p ≠ some (.pointer q)

/-- The chain that begins with `p` has its end at `last`, after fewer than `hops` hops. -/
def Resolves (h : Heap) (hops : Nat) (p last : Pointer) : Prop :=
  ∃ n, n < hops ∧ h.Chain n p last ∧ h.Rests last

/-- The name, seen from the scope `i`, leads to the binding `last`: its own one, or the end of the
chain of the pointer that it holds. -/
def NameResolves (h : Heap) (i : ScopeId) (name : String) (last : Pointer) : Prop :=
  ∃ p, h.pointer? i name = some p ∧ h.Resolves (maxHops + 1) p last

/-! ## Where chains end -/

theorem Chain.trans {m n : Nat} (hpq : h.Chain m p q) (hqr : h.Chain n q r) :
    h.Chain (m + n) p r := by
  induction hpq with
  | here p => rwa [Nat.zero_add]
  | hop hload _ ih =>
      rw [Nat.add_right_comm]
      exact .hop hload (ih hqr)

theorem rests_or_points (h : Heap) (p : Pointer) :
    h.Rests p ∨ ∃ q, h.load p = some (.pointer q) := by
  by_cases hp : ∃ q, h.load p = some (.pointer q)
  · exact .inr hp
  · exact .inl fun q hq => hp ⟨q, hq⟩

theorem resolves_iff_of_load (hp : h.load p = some (.pointer q)) :
    h.Resolves (hops + 1) p last ↔ h.Resolves hops q last := by
  constructor
  · rintro ⟨n, hn, hchain, hrest⟩
    cases hchain with
    | here => exact absurd hp (hrest q)
    | hop hload hchain =>
        cases hp.symm.trans hload
        exact ⟨_, Nat.lt_of_succ_lt_succ hn, hchain, hrest⟩
  · rintro ⟨n, hn, hchain, hrest⟩
    exact ⟨n + 1, Nat.succ_lt_succ hn, .hop hp hchain, hrest⟩

theorem Rests.resolves_iff (hp : h.Rests p) : h.Resolves (hops + 1) p last ↔ last = p := by
  constructor
  · rintro ⟨n, hn, hchain, -⟩
    cases hchain with
    | here => rfl
    | hop hload _ => exact absurd hload (hp _)
  · rintro rfl
    exact ⟨0, Nat.succ_pos hops, .here _, hp⟩

theorem followFrom_of_load (hp : h.load p = some (.pointer q)) :
    h.followFrom (hops + 1) p = h.followFrom hops q := by
  rw [followFrom, hp]

theorem Rests.followFrom_eq (hp : h.Rests p) : h.followFrom (hops + 1) p = some p := by
  rw [followFrom]
  split
  next q hq => exact absurd hq (hp q)
  next => rfl

/-- Following finds the end of the chain, if it is near enough. -/
theorem followFrom_eq_some_iff : h.followFrom hops p = some last ↔ h.Resolves hops p last := by
  induction hops generalizing p with
  | zero =>
      constructor
      · intro hf
        cases hf
      · rintro ⟨n, hn, -⟩
        exact absurd hn (Nat.not_lt_zero n)
  | succ hops ih =>
      rcases h.rests_or_points p with hp | ⟨q, hq⟩
      · rw [hp.followFrom_eq, hp.resolves_iff, Option.some_inj, eq_comm]
      · rw [followFrom_of_load hq, resolves_iff_of_load hq, ih]

theorem Resolves.unique (h₁ : h.Resolves hops p q) (h₂ : h.Resolves hops p r) : q = r :=
  Option.some.inj ((followFrom_eq_some_iff.mpr h₁).symm.trans (followFrom_eq_some_iff.mpr h₂))

theorem Resolves.mono {hops' : Nat} (hr : h.Resolves hops p q) (hle : hops ≤ hops') :
    h.Resolves hops' p q := by
  obtain ⟨n, hn, hchain⟩ := hr
  exact ⟨n, Nat.lt_of_lt_of_le hn hle, hchain⟩

/-- The way to the end of a chain is its longest one. -/
theorem Chain.le_of_rests {m n : Nat} (hq : h.Chain n p q) (hrest : h.Rests q)
    (hr : h.Chain m p r) : m ≤ n := by
  induction hq generalizing m with
  | here p =>
      cases hr with
      | here => exact Nat.le_refl 0
      | hop hload _ => exact absurd hload (hrest _)
  | hop hload _ ih =>
      cases hr with
      | here => exact Nat.zero_le _
      | hop hload' hr =>
          cases hload.symm.trans hload'
          exact Nat.succ_le_succ (ih hrest hr)

/-- A chain that comes to a circle has no end. -/
theorem not_resolves_of_circle {m n : Nat} (hcircle : h.Chain (n + 1) q q)
    (hq : h.Chain m p q) : ¬ h.Resolves hops p last := by
  rintro ⟨k, -, hlast, hrest⟩
  -- once more around the circle for every hop to the end
  have around : ∀ turns, h.Chain (m + turns * (n + 1)) p q := by
    intro turns
    induction turns with
    | zero => rwa [Nat.zero_mul, Nat.add_zero]
    | succ turns ih =>
        rw [Nat.succ_mul, ← Nat.add_assoc]
        exact ih.trans hcircle
  have hle := hlast.le_of_rests hrest (around (k + 1))
  have hlt : k + 1 ≤ (k + 1) * (n + 1) := Nat.le_mul_of_pos_right _ (Nat.succ_pos n)
  omega

/-! ## What a name is bound to -/

theorem get?_eq (h : Heap) (i : ScopeId) (name : String) :
    h.get? i name = (h.pointer? i name).bind fun p => h.find? p.scope p.name := by
  rw [get?, pointer?]
  cases h.resolve? i name <;> rfl

/-- A name that is bound is bound to what its binding holds. -/
theorem get?_of_pointer? {i : ScopeId} {name : String} (hp : h.pointer? i name = some p) :
    h.get? i name = some (h.load p) := by
  obtain ⟨slot, hslot⟩ := Option.isSome_iff_exists.mp (binds_of_pointer? hp)
  rw [get?_eq, hp, Option.bind_some, load, hslot]
  rfl

/-- In a well-formed heap the end of a chain holds a value. -/
theorem WellFormed.load_of_resolves (hw : h.WellFormed) (hp : h.Binds p)
    (hr : h.Resolves hops p last) : h.Binds last ∧ ∃ v, h.load last = some v ∧ v.IsPlain := by
  obtain ⟨hlast, v, hv, -, hplain⟩ := hw.followFrom hops p last hp (followFrom_eq_some_iff.mpr hr)
  exact ⟨hlast, v, hv, hplain⟩

theorem resolveFrom_congr (hfind : ∀ i m, (h'.find? i m).isSome = (h.find? i m).isSome)
    (hparent : ∀ i, h'.parent? i = h.parent? i) (m : String) (steps : Nat) (i : ScopeId) :
    h'.resolveFrom m steps i = h.resolveFrom m steps i := by
  induction steps generalizing i with
  | zero => rfl
  | succ steps ih =>
      rw [resolveFrom_succ, resolveFrom_succ, hfind, hparent]
      cases h.parent? i with
      | none => rfl
      | some j => rw [Option.bind_some, Option.bind_some, ih]

/-! ## A change of one binding -/

theorem define_of_find? {i : ScopeId} {n : String} {slot : Slot} (hf : h.find? i n = some slot) :
    h.define i n slot = h := by
  obtain ⟨s, hs, hslot⟩ := Option.bind_eq_some_iff.mp hf
  obtain ⟨hi, rfl⟩ := Array.getElem?_eq_some_iff.mp hs
  obtain ⟨scopes⟩ := h
  rw [define, Heap.mk.injEq]
  apply Array.ext_getElem?
  intro j
  rw [Array.getElem?_modify]
  by_cases hj : i = j
  · subst hj
    rw [if_pos rfl, hs, Option.map_some, Bindings.put_of_find? hslot]
  · rw [if_neg hj]

theorem load_store (hlast : h.Binds last) (slot : Slot) (p : Pointer) :
    (h.store last slot).load p = if p = last then slot else h.load p := by
  rw [load, store, find?_define hlast.lt_size]
  by_cases hp : p = last
  · rw [if_pos hp, if_pos ⟨congrArg Pointer.scope hp, congrArg Pointer.name hp⟩]
    rfl
  · rw [if_neg hp, if_neg, load]
    rintro ⟨hscope, hname⟩
    obtain ⟨i, m⟩ := p
    obtain ⟨j, n⟩ := last
    exact hp (by rw [Pointer.mk.injEq]; exact ⟨hscope, hname⟩)

theorem load_store_of_ne (hlast : h.Binds last) (slot : Slot) (hp : p ≠ last) :
    (h.store last slot).load p = h.load p := by
  rw [load_store hlast, if_neg hp]

theorem load_store_self (hlast : h.Binds last) (slot : Slot) :
    (h.store last slot).load last = slot := by
  rw [load_store hlast, if_pos rfl]

/-- Names lead to the same bindings whatever is stored. -/
theorem pointer?_store (hlast : h.Binds last) (slot : Slot) (i : ScopeId) (name : String) :
    (h.store last slot).pointer? i name = h.pointer? i name := by
  have hfind : ∀ j m, ((h.store last slot).find? j m).isSome = (h.find? j m).isSome := by
    intro j m
    rw [store, find?_define hlast.lt_size]
    split
    next hjm =>
      obtain ⟨rfl, rfl⟩ := hjm
      exact (Option.isSome_some).trans hlast.symm
    next => rfl
  rw [pointer?, pointer?, resolve?, resolve?,
    resolveFrom_congr hfind (parent?_define h last.scope last.name slot)]

/-- A plain value in place of a plain value: every chain ends where it did. -/
theorem followFrom_store (hlast : h.Binds last) (hrest : h.Rests last) {v : Value}
    (hv : v.IsPlain) (hops : Nat) (p : Pointer) :
    (h.store last (some v)).followFrom hops p = h.followFrom hops p := by
  have hrest' : (h.store last (some v)).Rests last := by
    intro q hq
    rw [load_store_self hlast] at hq
    exact hv q (Option.some.inj hq)
  induction hops generalizing p with
  | zero => rfl
  | succ hops ih =>
      by_cases hp : p = last
      · rw [hp, hrest.followFrom_eq, hrest'.followFrom_eq]
      · have hload := load_store_of_ne hlast (some v) hp
        rcases h.rests_or_points p with hrestp | ⟨q, hq⟩
        · have hrestp' : (h.store last (some v)).Rests p := by
            intro q hq
            rw [hload] at hq
            exact hrestp q hq
          rw [hrestp.followFrom_eq, hrestp'.followFrom_eq]
        · rw [followFrom_of_load hq, followFrom_of_load (hload.trans hq), ih]

theorem resolves_store_iff (hlast : h.Binds last) (hrest : h.Rests last) {v : Value}
    (hv : v.IsPlain) : (h.store last (some v)).Resolves hops p q ↔ h.Resolves hops p q := by
  rw [← followFrom_eq_some_iff, ← followFrom_eq_some_iff, followFrom_store hlast hrest hv]

theorem nameResolves_store_iff (hlast : h.Binds last) (hrest : h.Rests last) {v : Value}
    (hv : v.IsPlain) {i : ScopeId} {name : String} :
    (h.store last (some v)).NameResolves i name q ↔ h.NameResolves i name q := by
  simp only [NameResolves, pointer?_store hlast, resolves_store_iff hlast hrest hv]

/-- A chain goes on as before if what is changed is a binding that held no pointer: no hop of the
chain has begun there. -/
theorem Chain.of_others {n : Nat} (hchain : h.Chain n p q) (hrest : h.Rests last)
    (hothers : ∀ r, r ≠ last → h'.load r = h.load r) : h'.Chain n p q := by
  induction hchain with
  | here p => exact .here p
  | @hop n p q r hload _ ih =>
      have hne : p ≠ last := by
        rintro rfl
        exact hrest q hload
      exact .hop ((hothers p hne).trans hload) ih

theorem Resolves.of_others (hr : h.Resolves hops p q) (hne : q ≠ last) (hrest : h.Rests last)
    (hothers : ∀ r, r ≠ last → h'.load r = h.load r) : h'.Resolves hops p q := by
  obtain ⟨n, hn, hchain, hq⟩ := hr
  refine ⟨n, hn, hchain.of_others hrest hothers, ?_⟩
  intro r hload
  rw [hothers q hne] at hload
  exact hq r hload

end Heap

end HamScript
