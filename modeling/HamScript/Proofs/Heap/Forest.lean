/-
# Scopes as one store

Scopes form a forest: each one has a chain of scopes from itself outward, its lineage, and scopes
share the outer parts of their lineages.  What a name means at a scope is decided by the lineage:
the first scope on it that binds the name (`resolve?_eq_find?`).  Bindings themselves are shared, so
a change made at one scope is seen at others.  Which ones is said here, for every forest that
requests can build and for every pair of a scope that is changed and a scope that looks:

| change                | seen at `f`, for the name `n`, exactly if                             |
| :-------------------- | :-------------------------------------------------------------------- |
| assign `n` at `e`     | `n` resolves at `f` to the scope that it resolves to at `e`           |
| store through `p`     | `n` is the name of `p` and resolves at `f` to the scope of `p`        |
| define `n` at `e`     | `e` is on the lineage of `f`, and no scope before it there binds `n`  |

An assignment moves no name to another scope, because it binds nothing anew; a definition can take
lookups away from all scopes further out.
-/
import HamScript.Proofs.Heap.Chains

namespace HamScript.Heap

variable {h h' : Heap} {e f i j : ScopeId} {m n : String} {p : Pointer} {slot v : Slot}

/-! ## Lineages -/

/-- The scopes from `i` outward, itself the first of them. -/
inductive Lineage (h : Heap) : ScopeId → List ScopeId → Prop
  | root {i : ScopeId} : h.parent? i = none → Lineage h i [i]
  | child {i j : ScopeId} {l : List ScopeId} :
      h.parent? i = some j → Lineage h j l → Lineage h i (i :: l)

/-- Every scope is younger than its parent. -/
def Ordered (h : Heap) : Prop :=
  ∀ i j, h.parent? i = some j → j < i

/-- The scope itself binds the name. -/
def bindsHere (h : Heap) (n : String) (i : ScopeId) : Bool :=
  (h.find? i n).isSome

/-- Seen from `f`, the scope `e` is not covered: it is on the lineage of `f`, and no scope before it
there binds the name. -/
def Exposed (h : Heap) (n : String) (e f : ScopeId) : Prop :=
  ∃ below above, h.Lineage f (below ++ e :: above) ∧ ∀ j ∈ below, h.find? j n = none

theorem Ordered.exists_lineage (ho : h.Ordered) (i : ScopeId) : ∃ l, h.Lineage i l := by
  induction i using Nat.strongRecOn with
  | ind i ih =>
      cases hi : h.parent? i with
      | none => exact ⟨[i], .root hi⟩
      | some j =>
          obtain ⟨l, hl⟩ := ih j (ho i j hi)
          exact ⟨i :: l, .child hi hl⟩

theorem Lineage.unique {l l' : List ScopeId} (hl : h.Lineage i l) (hl' : h.Lineage i l') :
    l = l' := by
  induction hl generalizing l' with
  | root hi =>
      cases hl' with
      | root => rfl
      | child hi' => cases hi.symm.trans hi'
  | child hi _ ih =>
      cases hl' with
      | root hi' => cases hi.symm.trans hi'
      | child hi' hl' =>
          cases hi.symm.trans hi'
          rw [ih hl']

theorem Lineage.congr (hparent : ∀ i, h'.parent? i = h.parent? i) {l : List ScopeId}
    (hl : h.Lineage i l) : h'.Lineage i l := by
  induction hl with
  | root hi => exact .root ((hparent _).trans hi)
  | child hi _ ih => exact .child ((hparent _).trans hi) ih

/-- A name resolves to the first scope of the lineage that binds it. -/
theorem Lineage.resolveFrom_eq_find? (ho : h.Ordered) {l : List ScopeId} (hl : h.Lineage i l)
    (n : String) {steps : Nat} (hsteps : i < steps) :
    h.resolveFrom n steps i = l.find? (h.bindsHere n) := by
  induction hl generalizing steps with
  | @root i hi =>
      obtain ⟨k, rfl⟩ := Nat.exists_eq_succ_of_ne_zero (Nat.ne_zero_of_lt hsteps)
      rw [Nat.succ_eq_add_one, resolveFrom_succ, hi, List.find?_cons, bindsHere]
      cases (h.find? i n).isSome <;> rfl
  | @child i j l hi _ ih =>
      obtain ⟨k, rfl⟩ := Nat.exists_eq_succ_of_ne_zero (Nat.ne_zero_of_lt hsteps)
      have hj : j < k := Nat.lt_of_lt_of_le (ho i j hi) (Nat.le_of_lt_succ hsteps)
      rw [Nat.succ_eq_add_one, resolveFrom_succ, hi, Option.bind_some, ih hj, List.find?_cons,
        bindsHere]
      cases (h.find? i n).isSome <;> rfl

theorem Lineage.resolve?_eq_find? (ho : h.Ordered) {l : List ScopeId} (hl : h.Lineage i l)
    (n : String) : h.resolve? i n = l.find? (h.bindsHere n) :=
  hl.resolveFrom_eq_find? ho n (Nat.lt_succ_self i)

/-! ## Reading and writing through pointers -/

theorem get?_eq_map_load (h : Heap) (i : ScopeId) (n : String) :
    h.get? i n = (h.pointer? i n).map h.load := by
  cases hp : h.pointer? i n with
  | none => rw [get?_eq, hp, Option.bind_none, Option.map_none]
  | some p => rw [get?_of_pointer? hp, Option.map_some]

theorem assign?_eq_map_store (h : Heap) (i : ScopeId) (n : String) (slot : Slot) :
    h.assign? i n slot = (h.pointer? i n).map (h.store · slot) := by
  rw [assign?, pointer?]
  cases h.resolve? i n <;> rfl

theorem pointer?_eq_some_iff :
    h.pointer? i m = some p ↔ h.resolve? i m = some p.scope ∧ m = p.name := by
  rw [pointer?, Option.map_eq_some_iff]
  constructor
  · rintro ⟨j, hj, rfl⟩
    exact ⟨hj, rfl⟩
  · rintro ⟨hj, rfl⟩
    exact ⟨p.scope, hj, rfl⟩

/-! ## What a store changes -/

theorem get?_store_of_pointer? (hp : h.Binds p) (hf : h.pointer? f m = some p) :
    (h.store p v).get? f m = some v := by
  rw [get?_eq_map_load, pointer?_store hp, hf, Option.map_some, load_store_self hp]

theorem get?_store_of_ne (hp : h.Binds p) (hf : h.pointer? f m ≠ some p) :
    (h.store p v).get? f m = h.get? f m := by
  rw [get?_eq_map_load, get?_eq_map_load, pointer?_store hp]
  cases hq : h.pointer? f m with
  | none => rfl
  | some q =>
      have hne : q ≠ p := fun hqp => hf (by rw [hq, hqp])
      rw [Option.map_some, Option.map_some, load_store_of_ne hp v hne]

/-- An assignment is seen wherever the name resolves to the same scope, and nowhere else. -/
theorem get?_assign (ha : h.assign? e n v = some h') (f : ScopeId) (m : String) :
    (m = n ∧ h.resolve? f n = h.resolve? e n → h'.get? f m = some v) ∧
    (¬(m = n ∧ h.resolve? f n = h.resolve? e n) → h'.get? f m = h.get? f m) := by
  rw [assign?_eq_map_store, Option.map_eq_some_iff] at ha
  obtain ⟨p, hp, rfl⟩ := ha
  have hbinds := binds_of_pointer? hp
  obtain ⟨hscope, rfl⟩ := pointer?_eq_some_iff.mp hp
  constructor
  · rintro ⟨rfl, hresolve⟩
    exact get?_store_of_pointer? hbinds (pointer?_eq_some_iff.mpr ⟨hresolve.trans hscope, rfl⟩)
  · intro hother
    refine get?_store_of_ne hbinds fun hf => hother ?_
    obtain ⟨hf, rfl⟩ := pointer?_eq_some_iff.mp hf
    exact ⟨rfl, hf.trans hscope.symm⟩

/-! ## What a definition changes -/

theorem bindsHere_define (he : e < h.scopes.size) (j : ScopeId) :
    (h.define e n v).bindsHere m j = (decide (j = e ∧ m = n) || h.bindsHere m j) := by
  rw [bindsHere, find?_define he, bindsHere]
  by_cases hj : j = e ∧ m = n
  · rw [if_pos hj, decide_eq_true hj]
    rfl
  · rw [if_neg hj, decide_eq_false hj, Bool.false_or]

theorem Ordered.define (ho : h.Ordered) (e : ScopeId) (n : String) (v : Slot) :
    (h.define e n v).Ordered := by
  intro i j hij
  rw [parent?_define] at hij
  exact ho i j hij

/-- After a definition a name resolves to the first scope of the lineage that has bound it before or
is the one with the new definition. -/
theorem Lineage.resolve?_define (ho : h.Ordered) (he : e < h.scopes.size) {l : List ScopeId}
    (hl : h.Lineage f l) : (h.define e n v).resolve? f m =
      l.find? fun j => decide (j = e ∧ m = n) || h.bindsHere m j := by
  have hl' : (h.define e n v).Lineage f l := hl.congr (parent?_define h e n v)
  rw [hl'.resolve?_eq_find? (ho.define e n v)]
  congr 1
  funext j
  exact bindsHere_define he j

theorem get?_define_of_exposed (ho : h.Ordered) (he : e < h.scopes.size) (hexp : h.Exposed n e f) :
    (h.define e n v).get? f n = some v := by
  obtain ⟨below, above, hl, hbelow⟩ := hexp
  have hresolve : (h.define e n v).resolve? f n = some e := by
    rw [hl.resolve?_define ho he, List.find?_append]
    cases hfirst : below.find? fun j => decide (j = e ∧ n = n) || h.bindsHere n j with
    | none => simp
    | some j =>
        -- of the scopes below only `e` itself could bind the name now
        have hj := List.find?_some hfirst
        have hnone := hbelow j (List.mem_of_find?_eq_some hfirst)
        simp only [bindsHere, hnone, Option.isSome_none, Bool.or_false, decide_eq_true_eq] at hj
        rw [hj.1]
        rfl
  rw [get?, hresolve]
  exact (find?_define he n v e n).trans (if_pos ⟨rfl, rfl⟩)

/-- A scope that is covered, or not on the way at all, is not found before the one that was found
without it. -/
theorem find?_or_eq {l : List ScopeId} {q : ScopeId → Bool}
    (hcovered : ∀ below above, l = below ++ e :: above → ∃ j ∈ below, q j = true) :
    (l.find? fun j => decide (j = e) || q j) = l.find? q := by
  induction l with
  | nil => rfl
  | cons i l ih =>
      rw [List.find?_cons, List.find?_cons]
      cases hq : q i with
      | true => rw [Bool.or_true]
      | false =>
          have hne : i ≠ e := by
            rintro rfl
            obtain ⟨j, hj, -⟩ := hcovered [] l rfl
            exact absurd hj List.not_mem_nil
          rw [decide_eq_false hne, Bool.or_false]
          refine ih fun below above hl => ?_
          obtain ⟨j, hj, hqj⟩ := hcovered (i :: below) above (by rw [hl, List.cons_append])
          rcases List.mem_cons.mp hj with rfl | hj
          · rw [hq] at hqj
            cases hqj
          · exact ⟨j, hj, hqj⟩

/-- A definition that is not exposed leaves the name where it was. -/
theorem resolve?_define_of_not_exposed (ho : h.Ordered) (he : e < h.scopes.size)
    (hother : ¬(m = n ∧ h.Exposed n e f)) :
    (h.define e n v).resolve? f m = h.resolve? f m := by
  obtain ⟨l, hl⟩ := ho.exists_lineage f
  rw [hl.resolve?_define ho he, hl.resolve?_eq_find? ho]
  by_cases hm : m = n
  · subst hm
    have hcovered : ∀ below above, l = below ++ e :: above →
        ∃ j ∈ below, h.bindsHere m j = true := by
      rintro below above rfl
      refine Classical.byContradiction fun hnone => hother ⟨rfl, below, above, hl, fun j hj => ?_⟩
      refine Option.not_isSome_iff_eq_none.mp fun hbinds => hnone ⟨j, hj, hbinds⟩
    simpa using find?_or_eq hcovered
  · simp [hm]

theorem get?_define_of_not_exposed (ho : h.Ordered) (he : e < h.scopes.size)
    (hother : ¬(m = n ∧ h.Exposed n e f)) : (h.define e n v).get? f m = h.get? f m := by
  have hresolve := resolve?_define_of_not_exposed (v := v) ho he hother
  rw [get?, get?, hresolve]
  cases hj : h.resolve? f m with
  | none => rfl
  | some j =>
      refine (find?_define he n v j m).trans (if_neg ?_)
      rintro ⟨rfl, rfl⟩
      -- the scope that is found is on the lineage, and none before it binds the name
      obtain ⟨l, hl⟩ := ho.exists_lineage f
      rw [hl.resolve?_eq_find? ho, List.find?_eq_some_iff_append] at hj
      obtain ⟨-, below, above, rfl, hbelow⟩ := hj
      refine hother ⟨rfl, below, above, hl, fun i hi => ?_⟩
      have hunbound := hbelow i hi
      rw [Bool.not_eq_true', bindsHere, Option.isSome_eq_false_iff, Option.isNone_iff_eq_none]
        at hunbound
      exact hunbound

/-! ## Forests that requests build -/

/-- What can be asked of the scopes. -/
inductive Request where
  | newScope (parent : Option ScopeId)
  | define (i : ScopeId) (name : String) (slot : Slot)
  | get (i : ScopeId) (name : String)
  | assign (i : ScopeId) (name : String) (slot : Slot)
  | pointer (i : ScopeId) (name : String)
  | store (p : Pointer) (slot : Slot)

/-- What is answered. -/
inductive Answer where
  | done
  | scope (i : ScopeId)
  | slot (slot : Slot)
  | pointer (p : Pointer)
  /-- The request has failed, because its name is not bound. -/
  | unbound

namespace Request

/-- The scope or the binding that the request is about is there. -/
def Fits (h : Heap) : Request → Prop
  | newScope parent => ∀ i, parent = some i → i < h.scopes.size
  | define i _ _ | get i _ | assign i _ _ | pointer i _ => i < h.scopes.size
  | store p _ => h.Binds p

/-- The answer to a request, and the scopes after it. -/
def perform (h : Heap) : Request → Answer × Heap
  | newScope parent => (.scope (h.newScope parent).1, (h.newScope parent).2)
  | define i n slot => (.done, h.define i n slot)
  | get i n => ((h.get? i n).elim .unbound .slot, h)
  | assign i n slot => ((h.assign? i n slot).elim .unbound fun _ => .done,
      (h.assign? i n slot).getD h)
  | pointer i n => ((h.pointer? i n).elim .unbound .pointer, h)
  | store p slot => (.done, h.store p slot)

theorem perform_unbound {r : Request} (hr : (r.perform h).1 = .unbound) : (r.perform h).2 = h := by
  cases r with
  | newScope parent => cases hr
  | define i n slot => cases hr
  | get i n => rfl
  | assign i n slot =>
      cases ha : h.assign? i n slot with
      | none => rw [perform, ha, Option.getD_none]
      | some h' =>
          rw [perform, ha] at hr
          cases hr
  | pointer i n => rfl
  | store p slot => cases hr

end Request

/-- The scopes that requests make out of nothing. -/
inductive Built : Heap → Prop
  | empty : Built Heap.empty
  | request {h : Heap} {r : Request} : Built h → r.Fits h → Built (r.perform h).2

theorem Ordered.perform (ho : h.Ordered) {r : Request} (hr : r.Fits h) :
    (r.perform h).2.Ordered := by
  cases r with
  | newScope parent =>
      intro i j hij
      change (h.newScope parent).2.parent? i = some j at hij
      rw [parent?_newScope] at hij
      split at hij
      · next hi =>
        rw [hi]
        exact hr j hij
      · exact ho i j hij
  | define i n slot => exact ho.define i n slot
  | get i n => exact ho
  | assign i n slot =>
      change ((h.assign? i n slot).getD h).Ordered
      rw [assign?_eq_map_store]
      cases h.pointer? i n with
      | none => exact ho
      | some p => exact ho.define p.scope p.name slot
  | pointer i n => exact ho
  | store p slot => exact ho.define p.scope p.name slot

theorem Built.ordered (hb : h.Built) : h.Ordered := by
  induction hb with
  | empty =>
      intro i j hij
      exact wellFormed_empty.older i j hij
  | request _ hr ih => exact ih.perform hr

/-- **Shared scopes are one store.**  In every forest of scopes, a name is resolved along the
lineage of the scope that looks; it is read and assigned through its pointer; an assignment, a store
and a definition are seen exactly where the table above says, with the new value, and everything
else reads as before; and a request that fails changes nothing. -/
theorem scopes_are_one_store (hb : h.Built) :
    (∀ f n, ∃ l, h.Lineage f l ∧ (∀ l', h.Lineage f l' → l' = l) ∧
      h.resolve? f n = l.find? (h.bindsHere n)) ∧
    (∀ e n, h.get? e n = (h.pointer? e n).map h.load) ∧
    (∀ e n v, h.assign? e n v = (h.pointer? e n).map (h.store · v)) ∧
    (∀ e n v h', h.assign? e n v = some h' → ∀ f m,
      (m = n ∧ h.resolve? f n = h.resolve? e n → h'.get? f m = some v) ∧
      (¬(m = n ∧ h.resolve? f n = h.resolve? e n) → h'.get? f m = h.get? f m)) ∧
    (∀ p v, h.Binds p → ∀ f m,
      (m = p.name ∧ h.resolve? f m = some p.scope → (h.store p v).get? f m = some v) ∧
      (¬(m = p.name ∧ h.resolve? f m = some p.scope) → (h.store p v).get? f m = h.get? f m)) ∧
    (∀ e n v, e < h.scopes.size → ∀ f m,
      (m = n ∧ h.Exposed n e f → (h.define e n v).get? f m = some v) ∧
      (¬(m = n ∧ h.Exposed n e f) → (h.define e n v).get? f m = h.get? f m)) ∧
    (∀ r : Request, (r.perform h).1 = .unbound → (r.perform h).2 = h) := by
  have ho := hb.ordered
  refine ⟨fun f n => ?_, get?_eq_map_load h, assign?_eq_map_store h,
    fun e n v h' ha f m => get?_assign ha f m, fun p v hp f m => ⟨?_, ?_⟩,
    fun e n v he f m => ⟨?_, get?_define_of_not_exposed ho he⟩, fun r => Request.perform_unbound⟩
  · obtain ⟨l, hl⟩ := ho.exists_lineage f
    exact ⟨l, hl, fun l' hl' => hl'.unique hl, hl.resolve?_eq_find? ho n⟩
  · rintro ⟨hm, hscope⟩
    exact get?_store_of_pointer? hp (pointer?_eq_some_iff.mpr ⟨hscope, hm⟩)
  · intro hother
    refine get?_store_of_ne hp fun hf => hother ?_
    exact (pointer?_eq_some_iff.mp hf).symm
  · rintro ⟨rfl, hexp⟩
    exact get?_define_of_exposed ho he hexp

/-- Two scopes inside one that binds `x`. -/
def siblings : Heap :=
  let global := (Heap.empty.newScope none).2
  (((global.define 0 "x" (some (.bool true))).newScope (some 0)).2.newScope (some 0)).2

theorem siblings_built : siblings.Built := by
  have global := Built.empty.request (r := .newScope none) fun i hi => by cases hi
  have bound := global.request (r := .define 0 "x" (some (.bool true))) (Nat.zero_lt_one)
  have left := bound.request (r := .newScope (some 0)) fun i hi => by
    cases hi
    exact Nat.zero_lt_one
  exact left.request (r := .newScope (some 0)) fun i hi => by
    cases hi
    exact Nat.zero_lt_two

/-- What one of the two assigns to `x` the other one reads, and what it defines the other one does
not. -/
theorem scopes_are_one_store_siblings :
    siblings.Built ∧
    (∃ h', siblings.assign? 1 "x" (some .unit) = some h' ∧ h'.get? 2 "x" = some (some .unit)) ∧
    (siblings.define 1 "x" (some .unit)).get? 2 "x" = siblings.get? 2 "x" ∧
    siblings.get? 2 "x" = some (some (.bool true)) := by
  obtain ⟨-, -, -, hassign, -, hdefine, -⟩ := scopes_are_one_store siblings_built
  refine ⟨siblings_built, ⟨_, rfl, (hassign 1 "x" (some .unit) _ rfl 2 "x").1 ⟨rfl, rfl⟩⟩,
    (hdefine 1 "x" (some .unit) (by decide) 2 "x").2 ?_, rfl⟩
  rintro ⟨-, below, above, hl, -⟩
  have hl' : siblings.Lineage 2 [2, 0] := .child rfl (.root rfl)
  have hmem : 1 ∈ below ++ 1 :: above := List.mem_append_right _ List.mem_cons_self
  rw [hl.unique hl'] at hmem
  exact absurd hmem (by decide)

end HamScript.Heap
