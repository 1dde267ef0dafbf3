/-
# No call stays active

A session in which the active calls are counted hands its counter from step to step.  If a step left
it too high, by one call on one way out, later steps would stop too early; if it left it too low,
too late.  So it is asked of whole sessions, whatever their steps have ended with.

`Meter` is such a session.  It makes the steps of the session without a counter, and the counter is
at zero between them.  So a step is a function of the heap and the settings.

What is known of the limit on calls goes with it.  It is at least one and at most `depthLimit`, and
a step goes over it exactly if it comes to call a function, with the right number of arguments,
while as many calls are active as the limit allows.
-/
import HamScript.Proofs.Eval.Metered
import HamScript.Proofs.Eval.Overflow
import HamScript.Proofs.Session.Breaks
import HamScript.Proofs.Session.Places

namespace HamScript

open Source (Glyph Span)

theorem Settings.maxDepth_ofRequest (file : String) (depth : Int) :
    1 ≤ (ofRequest file depth).maxDepth ∧ (ofRequest file depth).maxDepth ≤ depthLimit := by
  simp only [ofRequest, defaultDepth, depthLimit]
  split <;> omega

/-- A session with a counter of the active calls. -/
structure Meter where
  session : Session
  depth : Nat

namespace Meter

/-- Runs a source with the counter as it is, and gives the counter that is left. -/
def evaluate (m : Meter) (maxTurns : Nat) (source : List Glyph) : Step × Nat :=
  match Program.ofGlyphs source .finished with
  | .ok p =>
    let (outcome, depth) := Metered.program (m.session.limits maxTurns false) Session.globals p
      m.depth ⟨m.session.heap, "", []⟩
    (m.session.conclude outcome, depth)
  | .error f => (⟨.fault (.text f), "", [], m.session⟩, m.depth)

/-- The session and the counter after a step. -/
def after (m : Meter) (maxTurns : Nat) (source : List Glyph) : Meter :=
  ⟨(m.evaluate maxTurns source).1.session, (m.evaluate maxTurns source).2⟩

/-- The sessions that are come to from a new one by steps, however these end. -/
inductive Reachable : Meter → Prop
  | start (file : String) (depth : Int) : Reachable ⟨.start (.ofRequest file depth), 0⟩
  | step {m : Meter} (maxTurns : Nat) (source : List Glyph) :
      Reachable m → Reachable (m.after maxTurns source)

/-! ## The counter between the steps -/

/-- A step that begins without an active call is the step without a counter, and leaves none
active. -/
theorem evaluate_of_depth {m : Meter} (hm : m.depth = 0) (maxTurns : Nat)
    (source : List Glyph) :
    m.evaluate maxTurns source = (m.session.evaluate maxTurns source, 0) := by
  rw [evaluate, Session.evaluate, hm]
  cases Program.ofGlyphs source .finished with
  | error f => rfl
  | ok p =>
      dsimp only
      rw [Metered.keeps_program (m.session.limits maxTurns false) Session.globals p]
      rfl

theorem Reachable.depth_eq {m : Meter} (h : m.Reachable) : m.depth = 0 := by
  induction h with
  | start => rfl
  | step maxTurns source _ ih => rw [after, evaluate_of_depth ih]

end Meter

namespace Session

variable {s : Session} {maxTurns : Nat} {source : List Glyph}

theorem settings_conclude (s : Session) (o : Outcome Value) :
    (s.conclude o).session.settings = s.settings := by
  cases o <;> rfl

theorem settings_evaluate (s : Session) (maxTurns : Nat) (source : List Glyph) :
    (s.evaluate maxTurns source).session.settings = s.settings := by
  rw [evaluate]
  cases Program.ofGlyphs source .finished with
  | ok p => exact settings_conclude s _
  | error f => rfl

/-- A source that is no program has printed nothing and changes nothing. -/
theorem unchanged_of_text {f : SyntaxFault}
    (h : (s.evaluate maxTurns source).result = .fault (.text f)) :
    (s.evaluate maxTurns source).output = "" ∧ (s.evaluate maxTurns source).session = s := by
  rw [evaluate, ofGlyphs_of_text h]
  exact ⟨rfl, rfl⟩

/-- A fault of the run is the fault of a program. -/
theorem exists_program_of_runtime {e : RuntimeFault}
    (h : (s.evaluate maxTurns source).result = .fault (.runtime e)) :
    ∃ p w, Program.ofGlyphs source .finished = .ok p ∧
      Eval.program (s.limits maxTurns false) globals p ⟨s.heap, "", []⟩ = .fault e w := by
  rw [evaluate] at h
  cases hp : Program.ofGlyphs source .finished with
  | error f =>
      rw [hp] at h
      cases h
  | ok p =>
      rw [hp] at h
      dsimp only [run] at h
      cases hrun : Eval.program (s.limits maxTurns false) globals p ⟨s.heap, "", []⟩ with
      | fault e' w =>
          rw [hrun] at h
          cases h
          exact ⟨p, w, rfl, hrun⟩
      | value | misuse | exhausted =>
          rw [hrun] at h
          cases h

/-! ## The call that goes over the limit -/

/-- The run of the source comes to call `f` on the arguments, in the world `w`, while `k` calls are
active. -/
def Calls (s : Session) (maxTurns : Nat) (source : List Glyph) (k : Nat) (f : Closure)
    (args : List Value) (span : Span) (w : World) : Prop :=
  ∃ p left, Program.ofGlyphs source .finished = .ok p ∧
    Eval.Nested (s.limits maxTurns false) (s.firstStage p) k ⟨left, .call f args span, w⟩

variable {k : Nat} {f : Closure} {args : List Value} {span : Span} {w : World}

theorem Calls.le_maxDepth (h : s.Calls maxTurns source k f args span w) :
    k ≤ s.settings.maxDepth := by
  obtain ⟨p, left, -, hnested⟩ := h
  exact Nat.le.intro ((Nat.add_comm k left).trans hnested.left_add)

/-- A call with the right number of arguments that finds as many active as may be ends the step. -/
theorem Calls.evaluate_eq (h : s.Calls maxTurns source s.settings.maxDepth f args span w)
    (harity : args.length = f.params.length) :
    s.evaluate maxTurns source =
      s.conclude (.fault ⟨.tooManyCalls s.settings.maxDepth f.shownName, span⟩ w) := by
  obtain ⟨p, left, hp, hnested⟩ := h
  -- none may become active any more
  obtain rfl : left = 0 := Nat.add_eq_right.mp hnested.left_add
  have hover : Eval.Overruns (s.limits maxTurns false) ⟨0, .call f args span, w⟩
      ⟨.tooManyCalls s.settings.maxDepth f.shownName, span⟩ w := .call harity
  have hrun := Outcome.map_eq_fault_iff.mp (hnested.reaches.fault hover.outcome)
  rw [evaluate, hp]
  exact congrArg s.conclude hrun

/-- And there is no other way for a step to go over the limit. -/
theorem exists_calls_of_class?
    (h : (s.evaluate maxTurns source).result.class? = some .stackOverflow) :
    ∃ f args span w, s.Calls maxTurns source s.settings.maxDepth f args span w ∧
      args.length = f.params.length := by
  obtain ⟨e, he, hclass⟩ := StepResult.exists_of_class? h
  obtain ⟨p, w, hp, hrun⟩ := exists_program_of_runtime he
  obtain ⟨b, hreach, hover⟩ := Eval.accounts_program _ _ _ _ _ e w hrun hclass
  obtain ⟨k, hnested⟩ := Eval.Reaches.nested hreach
  cases hover with
  | @call g args span _ harity =>
      have hk : 0 + k = s.settings.maxDepth := hnested.left_add
      rw [Nat.zero_add] at hk
      subst hk
      exact ⟨g, args, span, w, ⟨p, 0, hp, hnested⟩, harity⟩

end Session

namespace Meter

theorem Reachable.maxDepth_bounds {m : Meter} (h : m.Reachable) :
    1 ≤ m.session.settings.maxDepth ∧ m.session.settings.maxDepth ≤ Settings.depthLimit := by
  induction h with
  | start file depth => exact Settings.maxDepth_ofRequest file depth
  | step maxTurns source hm ih =>
      rw [after, evaluate_of_depth hm.depth_eq]
      dsimp only
      rw [Session.settings_evaluate]
      exact ih

/-- **No call stays active.**  Let a session have made any steps, ended in whatever way, with a
counter of its active calls.

* The limit on calls is between 1 and 20000.
* The counter is at zero before the next step and, however this one ends, after it; and the step is
  the one that is made without a counter.  So sessions with the same heap and the same settings make
  the same step.
* A step that ends because of a fault in the text of its source has printed nothing, and leaves the
  session as it was.
* A step goes over the limit exactly if it comes to call a function, with the right number of
  arguments, while as many calls are active as the limit says.  This call is the one that is
  reported; and there are never more calls active. -/
theorem steps_leave_no_call_active {m : Meter} (hm : m.Reachable) (maxTurns : Nat)
    (source : List Glyph) :
    (1 ≤ m.session.settings.maxDepth ∧ m.session.settings.maxDepth ≤ 20000) ∧
    (m.depth = 0 ∧ m.evaluate maxTurns source = (m.session.evaluate maxTurns source, 0)) ∧
    (∀ m' : Meter, m'.Reachable → m'.session.heap = m.session.heap →
      m'.session.settings = m.session.settings →
      m'.evaluate maxTurns source = m.evaluate maxTurns source) ∧
    (∀ f, (m.session.evaluate maxTurns source).result = .fault (.text f) →
      (m.session.evaluate maxTurns source).output = "" ∧
      (m.session.evaluate maxTurns source).session = m.session) ∧
    ((m.session.evaluate maxTurns source).result.class? = some .stackOverflow ↔
      ∃ f args span w,
        m.session.Calls maxTurns source m.session.settings.maxDepth f args span w ∧
        args.length = f.params.length) ∧
    ∀ k f args span w, m.session.Calls maxTurns source k f args span w →
      k ≤ m.session.settings.maxDepth ∧
      (k = m.session.settings.maxDepth → args.length = f.params.length →
        (m.session.evaluate maxTurns source).result =
          .fault (.runtime ⟨.tooManyCalls m.session.settings.maxDepth f.shownName, span⟩)) := by
  have hstep : ∀ m : Meter, m.Reachable →
      m.evaluate maxTurns source = (m.session.evaluate maxTurns source, 0) :=
    fun m hm => evaluate_of_depth hm.depth_eq maxTurns source
  refine ⟨hm.maxDepth_bounds, ⟨hm.depth_eq, hstep m hm⟩, ?_, ?_, ⟨?_, ?_⟩, ?_⟩
  · intro m' hm' hheap hsettings
    have hsession : m'.session = m.session := by
      rcases m' with ⟨⟨settings, heap⟩, depth⟩
      rw [show settings = m.session.settings from hsettings,
        show heap = m.session.heap from hheap]
    rw [hstep m' hm', hstep m hm, hsession]
  · intro f hf
    exact Session.unchanged_of_text hf
  · exact Session.exists_calls_of_class?
  · rintro ⟨f, args, span, w, hcalls, harity⟩
    rw [hcalls.evaluate_eq harity]
    rfl
  · intro k f args span w hcalls
    refine ⟨hcalls.le_maxDepth, ?_⟩
    rintro rfl harity
    rw [hcalls.evaluate_eq harity]
    rfl

/-- `fn f(){f()}f()` -/
def recursing : List Glyph :=
  Glyph.ofBytes [102, 110, 32, 102, 40, 41, 123, 102, 40, 41, 125, 102, 40, 41]

/-- A step that goes over the limit, and the same step once more. -/
theorem steps_leave_no_call_active_recursing :
    let m : Meter := ⟨.start (.ofRequest "recursing.ham" 2), 0⟩
    let m' := m.after 1 recursing
    m.Reachable ∧ m'.Reachable ∧ m.session.settings.maxDepth = 2 ∧
    (m.evaluate 1 recursing).1.result.class? = some .stackOverflow ∧
    (∃ f args span w, m.session.Calls 1 recursing 2 f args span w ∧
      args.length = f.params.length) ∧
    m'.depth = 0 ∧ m'.evaluate 1 recursing = (m'.session.evaluate 1 recursing, 0) := by
  intro m m'
  have hm : m.Reachable := .start "recursing.ham" 2
  have hm' : m'.Reachable := hm.step 1 recursing
  obtain ⟨-, ⟨-, hstep⟩, -, -, hover, -⟩ := steps_leave_no_call_active hm 1 recursing
  obtain ⟨-, hagain, -⟩ := steps_leave_no_call_active hm' 1 recursing
  have hclass : (m.session.evaluate 1 recursing).result.class? = some .stackOverflow := by
    set_option maxRecDepth 8000 in rfl
  refine ⟨hm, hm', rfl, ?_, hover.mp hclass, hagain⟩
  rw [hstep]
  exact hclass

end Meter

end HamScript
