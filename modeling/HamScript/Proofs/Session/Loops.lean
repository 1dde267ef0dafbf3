/-
# Broken pointers and loops

A pointer is broken if following it does not come to a plain value.  Two things look alike from the
outside: a chain that leads in a circle, and a chain that is longer than following goes.

| the chain of `p`                       | `h.follow? p`        |
| :------------------------------------- | :------------------- |
| comes to a circle                      | `none`               |
| ends at `last`, before `maxHops` hops  | `some last`          |
| ends after `maxHops` hops or later     | `none`, all the same |

A heap has finitely many bindings, so that a chain without an end comes to some binding twice, and
from there on it is a circle (`loops_iff_endless`).  That the last row of the table is not empty is
seen from a function that calls itself with a pointer to its own parameter (`deepHeap`).
-/
import Mathlib.Data.Fintype.Pigeonhole
import Mathlib.Data.Set.Finite.List
import HamScript.Proofs.Heap.Chains
import HamScript.Proofs.Session.Scopes

namespace HamScript

open Source (Glyph)

namespace Heap

variable {h : Heap} {p q r last : Pointer}

/-- The chain that begins with `p` comes to a circle. -/
def Loops (h : Heap) (p : Pointer) : Prop :=
  ∃ q m n, h.Chain m p q ∧ h.Chain (n + 1) q q

/-- The chain that begins with `p` never comes to a binding without a pointer. -/
def Endless (h : Heap) (p : Pointer) : Prop :=
  ∀ n q, h.Chain n p q → ¬ h.Rests q

instance (h : Heap) (p : Pointer) : Decidable (h.Binds p) :=
  inferInstanceAs (Decidable (_ = true))

/-! ## Chains without an end are circles -/

/-- A longer way begins with the shorter one. -/
theorem Chain.of_add {m n : Nat} (hq : h.Chain m p q) (hr : h.Chain (m + n) p r) :
    h.Chain n q r := by
  induction hq with
  | here p => rwa [Nat.zero_add] at hr
  | hop hload _ ih =>
      rw [Nat.add_right_comm] at hr
      cases hr with
      | hop hload' hr =>
          cases hload.symm.trans hload'
          exact ih hr

/-- In a well-formed heap a chain goes from binding to binding. -/
theorem WellFormed.binds_of_chain {n : Nat} (hw : h.WellFormed) (hp : h.Binds p)
    (hchain : h.Chain n p q) : h.Binds q := by
  induction hchain with
  | here p => exact hp
  | hop hload _ ih =>
      obtain ⟨v, hv, hlives⟩ := hw.load hp
      cases hload.symm.trans hv
      exact ih hlives

theorem finite_binds (h : Heap) : {p : Pointer | h.Binds p}.Finite := by
  let all := (List.range h.scopes.size).flatMap fun i => (h.names i).map (Pointer.mk i)
  refine all.finite_toSet.subset fun p hp => ?_
  refine List.mem_flatMap.mpr ⟨p.scope, List.mem_range.mpr (Binds.lt_size hp), ?_⟩
  exact List.mem_map.mpr ⟨p.name, (h.mem_names_iff p.scope p.name).mpr hp, rfl⟩

theorem Endless.exists_chain (hp : h.Endless p) (n : Nat) : ∃ q, h.Chain n p q := by
  induction n with
  | zero => exact ⟨p, .here p⟩
  | succ n ih =>
      obtain ⟨q, hq⟩ := ih
      rcases h.rests_or_points q with hrest | ⟨r, hr⟩
      · exact absurd hrest (hp n q hq)
      · exact ⟨r, hq.trans (.hop hr (.here r))⟩

/-- A chain goes on for ever exactly if it comes to a circle. -/
theorem loops_iff_endless (hw : h.WellFormed) (hp : h.Binds p) : h.Loops p ↔ h.Endless p := by
  constructor
  · rintro ⟨q, m, n, hq, hcircle⟩ k last hlast hrest
    exact not_resolves_of_circle hcircle hq ⟨k, Nat.lt_succ_self k, hlast, hrest⟩
  · intro hendless
    choose visited hvisited using hendless.exists_chain
    have := (finite_binds h).to_subtype
    let step : Nat → {p : Pointer | h.Binds p} :=
      fun n => ⟨visited n, hw.binds_of_chain hp (hvisited n)⟩
    -- more hops than bindings: two of them lead to the same binding
    obtain ⟨m, n, hne, hsame⟩ := Finite.exists_ne_map_eq_of_infinite step
    wlog hlt : m < n generalizing m n
    · exact this n m hne.symm hsame.symm (Nat.lt_of_le_of_ne (Nat.le_of_not_lt hlt) hne.symm)
    obtain ⟨k, rfl⟩ := Nat.exists_eq_add_of_lt hlt
    refine ⟨visited m, m, k, hvisited m, ?_⟩
    have hback := (hvisited m).of_add (n := k + 1) (hvisited (m + k + 1))
    have hsame : visited m = visited (m + k + 1) := congrArg Subtype.val hsame
    rwa [← hsame] at hback

/-! ## Following -/

/-- Following fails for circles and for chains that do not end in time. -/
theorem follow?_eq_none_iff (hw : h.WellFormed) (hp : h.Binds p) :
    h.follow? p = none ↔
      h.Loops p ∨ ∃ n last, maxHops ≤ n ∧ h.Chain n p last ∧ h.Rests last := by
  rw [loops_iff_endless hw hp, Option.eq_none_iff_forall_ne_some]
  constructor
  · intro hnone
    by_cases hend : ∃ n last, h.Chain n p last ∧ h.Rests last
    · obtain ⟨n, last, hchain, hrest⟩ := hend
      refine .inr ⟨n, last, Nat.le_of_not_lt fun hn => ?_, hchain, hrest⟩
      exact hnone last (followFrom_eq_some_iff.mpr ⟨n, hn, hchain, hrest⟩)
    · exact .inl fun n q hchain hrest => hend ⟨n, q, hchain, hrest⟩
  · intro hbroken found hfound
    obtain ⟨k, hk, hchain, hrest⟩ := followFrom_eq_some_iff.mp hfound
    rcases hbroken with hendless | ⟨n, last, hn, hlast, -⟩
    · exact hendless k found hchain hrest
    · exact absurd (hchain.le_of_rests hrest hlast) (Nat.not_le.mpr (Nat.lt_of_lt_of_le hk hn))

/-- Following finds the plain value at the end of a chain that ends in time. -/
theorem follow?_eq_some_iff (hw : h.WellFormed) (hp : h.Binds p) :
    h.follow? p = some last ↔
      ∃ n v, n < maxHops ∧ h.Chain n p last ∧ h.load last = some v ∧ v.IsPlain := by
  rw [follow?, followFrom_eq_some_iff]
  constructor
  · intro hr
    obtain ⟨-, v, hv, hplain⟩ := hw.load_of_resolves hp hr
    obtain ⟨n, hn, hchain, -⟩ := hr
    exact ⟨n, v, hn, hchain, hv, hplain⟩
  · rintro ⟨n, v, hn, hchain, hv, hplain⟩
    refine ⟨n, hn, hchain, fun q hq => ?_⟩
    exact hplain q (Option.some.inj (hv.symm.trans hq))

end Heap

/-- **Broken pointers.**  Take a pointer to a binding of a heap that a session comes to.  Following
it leads to the last pointer of its chain, whose binding holds a plain value, exactly if the chain
has fewer than `maxHops` hops.  It fails exactly if the chain comes to a circle, which is to say that
it never comes to a plain value, or ends only after `maxHops` hops or more.  So where no chain is as
long as that, a pointer is broken exactly if it leads in a circle. -/
theorem broken_iff_loops_or_far {h : Heap} (hh : h.Reached) {p : Pointer} (hp : h.Binds p) :
    (h.Loops p ↔ h.Endless p) ∧
    (∀ last, h.follow? p = some last ↔
      ∃ n v, n < Heap.maxHops ∧ h.Chain n p last ∧ h.load last = some v ∧ v.IsPlain) ∧
    (h.follow? p = none ↔
      h.Loops p ∨ ∃ n last, Heap.maxHops ≤ n ∧ h.Chain n p last ∧ h.Rests last) ∧
    ((∀ n last, h.Chain n p last → h.Rests last → n < Heap.maxHops) →
      (h.follow? p = none ↔ h.Loops p)) := by
  have hw := hh.wellFormed
  have hnone := Heap.follow?_eq_none_iff hw hp
  refine ⟨Heap.loops_iff_endless hw hp, fun last => Heap.follow?_eq_some_iff hw hp, hnone, ?_⟩
  intro hnear
  rw [hnone]
  constructor
  · rintro (hloops | ⟨n, last, hn, hchain, hrest⟩)
    · exact hloops
    · exact absurd (hnear n last hchain hrest) (Nat.not_lt.mpr hn)
  · exact .inl

/-! ## A chain that is too long -/

/-- A run that fails leaves a heap that a session comes to. -/
theorem Session.reached_of_class {s : Session} (hs : s.Reachable) {maxTurns : Nat}
    {source : List Glyph} {st : Step} (hst : s.evaluate maxTurns source = st) {c : FaultClass}
    (hc : st.result.class? = some c) : st.session.heap.Reached := by
  have hfinal : st.result.IsFinal := by
    revert hc
    cases st.result with
    | value v => exact fun _ => trivial
    | fault f => exact fun _ => trivial
    | misuse m => nofun
    | exhausted => nofun
  have hend : Session.Ends (s.evaluate · source) st := ⟨maxTurns, hst, hfinal⟩
  exact ⟨_, 1, [], _, .step hs hend, ⟨[], rfl, .refl⟩, rfl⟩

/-- A function that calls itself `n` times, each time with a pointer to its own parameter, and gives
what its parameter holds in the end; and a sum with what it gives for 65. -/
def descent : List Glyph :=
  Glyph.ofText
    "fn f(p,n)\x7bif n==0\x7breturn p\x7dreturn f(&p,n-1)\x7d\nf(1,65)+0"

/-- The run of it. -/
def deepStep : Step :=
  (Session.start ⟨"deep.ham", 100⟩).evaluate 1 descent

/-- The heap that it leaves.  The first call has the scope 1, its parameter holds a number, and the
parameter of every later call holds a pointer to the one before. -/
def deepHeap : Heap :=
  deepStep.session.heap

/-- The parameter of the call with the number `i`. -/
def deepParam (i : Nat) : Pointer :=
  ⟨i, "p"⟩

/-- The sum fails.  From the parameter of the 64th call following finds the first one; it does so
from the 65th too if it goes one hop further, and does not if it does not. -/
theorem deepStep_eq :
    deepStep.result.class? = some .brokenPointer ∧
    deepHeap.follow? (deepParam 64) = some (deepParam 1) ∧
    deepHeap.followFrom (Heap.maxHops + 1) (deepParam 65) = some (deepParam 1) ∧
    deepHeap.follow? (deepParam 65) = none ∧
    deepHeap.Binds (deepParam 64) ∧ deepHeap.Binds (deepParam 65) := by
  decide +kernel

theorem reached_deepHeap : deepHeap.Reached :=
  Session.reached_of_class (.start _) rfl deepStep_eq.1

/-- The chain of the 65th parameter ends, with a plain value, and is not followed to its end. -/
theorem broken_without_loop_deep :
    deepHeap.Reached ∧ deepHeap.Binds (deepParam 65) ∧ deepHeap.follow? (deepParam 65) = none ∧
    ¬ deepHeap.Loops (deepParam 65) ∧ ¬ deepHeap.Endless (deepParam 65) ∧
    deepStep.result.class? = some .brokenPointer := by
  obtain ⟨hclass, -, hfar, hnone, -, hbinds⟩ := deepStep_eq
  obtain ⟨n, -, hchain, hrest⟩ := Heap.followFrom_eq_some_iff.mp hfar
  have hend : ¬ deepHeap.Endless (deepParam 65) := fun hendless => hendless n _ hchain hrest
  refine ⟨reached_deepHeap, hbinds, hnone, ?_, hend, hclass⟩
  rwa [Heap.loops_iff_endless reached_deepHeap.wellFormed hbinds]

/-- The 64th parameter leads to the first one in time, and the 65th does not. -/
theorem broken_iff_loops_or_far_deep :
    deepHeap.Reached ∧ deepHeap.Binds (deepParam 64) ∧ deepHeap.Binds (deepParam 65) ∧
    (∃ n v, n < Heap.maxHops ∧ deepHeap.Chain n (deepParam 64) (deepParam 1) ∧
      deepHeap.load (deepParam 1) = some v ∧ v.IsPlain) ∧
    (deepHeap.Loops (deepParam 65) ∨
      ∃ n last, Heap.maxHops ≤ n ∧ deepHeap.Chain n (deepParam 65) last ∧ deepHeap.Rests last) := by
  obtain ⟨-, hnear, -, hnone, hbinds, hbinds'⟩ := deepStep_eq
  obtain ⟨-, hsome, -, -⟩ := broken_iff_loops_or_far reached_deepHeap hbinds
  obtain ⟨-, -, hbroken, -⟩ := broken_iff_loops_or_far reached_deepHeap hbinds'
  exact ⟨reached_deepHeap, hbinds, hbinds', (hsome _).mp hnear, hbroken.mp hnone⟩

end HamScript
