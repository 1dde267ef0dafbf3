/-
# What a program leaves

The value of a program is that of its last expression statement, or that of a `return`, and there
may be neither.  `answer` runs a program and says which value it leaves, if any; `programFrom` puts
a given value in its place if there is none (`programFrom_eq`).

Two things are said about programs that come to an end.  One that leaves a value has a statement
that leaves one, or a `return` has ended it (`answer_cases`).  And what stands after a program that
no `return` has ended is run in the world that the program has left (`programFrom_append`).
-/
import HamScript.Proofs.Eval.Passage

namespace HamScript.Eval

/-- The statements of a program, run as a block. -/
def topBlock (limits : Limits) (scope : ScopeId) (p : Program) : Eval Flow :=
  block (invoke limits limits.maxDepth) limits.maxTurns scope p

/-- Runs a program and gives the value that it leaves, if it leaves one. -/
def answer (limits : Limits) (scope : ScopeId) : Program → Eval (Option Value)
  | [] => return none
  | s :: rest => do
    match ← stmt (invoke limits limits.maxDepth) limits.maxTurns scope s with
    | .next v =>
      let later ← answer limits scope rest
      return later.or (if leavesValue s then some v else none)
    | .returned v => return some v
    | .broke span => raise .strayBreak span

section
variable {limits : Limits} {scope : ScopeId} {w w' : World}

/-! ## The first statement

How a program goes on after its first statement, in terms of how this one ends. -/

theorem bind_of_value {α β : Type} {x : Eval α} {f : α → Eval β} {a : α} (h : x w = .value a w') :
    (x >>= f) w = f a w' := by
  change Eval.bind x f w = f a w'
  simp only [Eval.bind, h]

theorem bind_of_fault {α β : Type} {x : Eval α} {f : α → Eval β} {e : RuntimeFault}
    (h : x w = .fault e w') : (x >>= f) w = .fault e w' := by
  change Eval.bind x f w = .fault e w'
  simp only [Eval.bind, h]

theorem read_bind {α β : Type} (look : Heap → α) (f : α → Eval β) (w : World) :
    (read look >>= f) w = f (look w.heap) w :=
  rfl

theorem exists_of_bind_value {α β : Type} {x : Eval α} {f : α → Eval β} {b : β}
    (h : (x >>= f) w = .value b w') : ∃ a w₁, x w = .value a w₁ ∧ f a w₁ = .value b w' := by
  change Eval.bind x f w = .value b w' at h
  unfold Eval.bind at h
  split at h
  next a w₁ hx => exact ⟨a, w₁, hx, h⟩
  all_goals cases h

/-! ## The value of a program -/

theorem programFrom_eq (last : Value) (p : Program) (w : World) :
    programFrom limits scope last p w = (answer limits scope p w).map (·.getD last) := by
  induction p generalizing last w with
  | nil => rfl
  | cons s rest ih =>
      rw [programFrom, answer]
      change Eval.bind _ _ w = (Eval.bind _ _ w).map _
      unfold Eval.bind
      cases stmt (invoke limits limits.maxDepth) limits.maxTurns scope s w with
      | value flow w₁ =>
          cases flow with
          | next v =>
              dsimp only
              rw [ih]
              change _ = (Eval.bind _ _ w₁).map _
              unfold Eval.bind
              cases answer limits scope rest w₁ with
              | value later w₂ =>
                  cases later with
                  | some u => rfl
                  | none => cases leavesValue s <;> rfl
              | fault | misuse | exhausted => rfl
          | returned v => rfl
          | broke span => rfl
      | fault | misuse | exhausted => rfl

/-- A program that comes to its end is ended by a `return` with the value it leaves, or all its
statements are run, and it leaves a value exactly if one of them does. -/
theorem answer_cases {p : Program} {v? : Option Value}
    (h : answer limits scope p w = .value v? w') :
    (∃ v, v? = some v ∧ topBlock limits scope p w = .value (.returned v) w') ∨
      (topBlock limits scope p w = .value (.next .unit) w' ∧ v?.isSome = p.any leavesValue) := by
  induction p generalizing w v? with
  | nil =>
      obtain ⟨rfl, rfl⟩ := Outcome.value.inj h
      exact .inr ⟨rfl, rfl⟩
  | cons s rest ih =>
      rw [answer] at h
      obtain ⟨flow, w₁, hs, h⟩ := exists_of_bind_value h
      cases flow with
      | next v =>
          have hblock : topBlock limits scope (s :: rest) w = topBlock limits scope rest w₁ := by
            rw [topBlock, block, bind_of_value hs]
            rfl
          obtain ⟨later, w₂, hrest, h⟩ := exists_of_bind_value h
          obtain ⟨rfl, rfl⟩ := Outcome.value.inj h
          rw [hblock]
          rcases ih hrest with ⟨u, rfl, hend⟩ | ⟨hend, hsome⟩
          · exact .inl ⟨u, rfl, hend⟩
          · refine .inr ⟨hend, ?_⟩
            rw [List.any_cons, ← hsome]
            cases later <;> cases leavesValue s <;> rfl
      | returned v =>
          have hblock : topBlock limits scope (s :: rest) w = .value (.returned v) w₁ := by
            rw [topBlock, block, bind_of_value hs]
            rfl
          obtain ⟨rfl, rfl⟩ := Outcome.value.inj h
          exact .inl ⟨v, rfl, hblock⟩
      | broke span => cases h

/-- What stands after a program that no `return` has ended goes on with its value and its world. -/
theorem programFrom_append {p : Program} {last v : Value} {flow : Value} {w₁ : World}
    (hend : topBlock limits scope p w = .value (.next flow) w₁)
    (hvalue : programFrom limits scope last p w = .value v w') (q : Program) :
    programFrom limits scope last (p ++ q) w = programFrom limits scope v q w' := by
  induction p generalizing last w with
  | nil =>
      obtain ⟨rfl, rfl⟩ := Outcome.value.inj hvalue
      rfl
  | cons s rest ih =>
      rw [programFrom] at hvalue
      obtain ⟨first, w₂, hs, hvalue⟩ := exists_of_bind_value hvalue
      rw [topBlock, block, bind_of_value hs] at hend
      rw [List.cons_append, programFrom, bind_of_value hs]
      cases first with
      | next u => exact ih hend hvalue
      | returned u => cases hend
      | broke span => cases hend

end

end HamScript.Eval
