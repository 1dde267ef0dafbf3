/-
# A `break` is a matter of the text

A `break` ends the loop around it.  What is meant by *around* can be read off the text: the loop has
to be in the function that the `break` is in.  A `break` of another function, even of one that the
loop calls, is a stray one.

A run notices this only by where a `break` has come to: the way out of a block, of an `if`, of a
function.  The functions that a run calls can come from anywhere, since they are kept in the heap
from one source to the next.  So what is carried along is a likeness of the heap to itself
(`Likeness.strayAt`): no function in it has a stray `break` other than those of the sources that
have been run.
-/
import HamScript.Proofs.Session.Ends

namespace HamScript

open Source (Glyph Span)

/-- The stray `break`s have spans of the given kind. -/
def Likeness.strayAt (known : Span → Prop) : Likeness where
  spans _ _ := True
  strays s _ := known s
  names _ := True
  loops := True

/-- A cause is of this class only if a stray `break` has been run. -/
theorem Cause.faultClass_eq_breakOutsideLoop_iff {c : Cause} :
    c.faultClass = .breakOutsideLoop ↔ c = .strayBreak := by
  cases c <;> simp [Cause.faultClass]

theorem StepResult.exists_of_class? {r : StepResult} {c : FaultClass} (h : r.class? = some c) :
    ∃ f, r = .fault (.runtime f) ∧ f.cause.faultClass = c := by
  cases r with
  | fault f =>
      cases f with
      | runtime f => exact ⟨f, rfl, Option.some.inj h⟩
      | text f => cases h
  | value v => cases h
  | misuse m => cases h
  | exhausted => cases h

namespace Session

/-- The sources have been run, one after the other, in a session that was new, and each of them has
ended; the session is what they have left. -/
inductive History (settings : Settings) : List (List Glyph) → Session → Prop
  | start : History settings [] (start settings)
  | step {sources : List (List Glyph)} {source : List Glyph} {s : Session} {st : Step} :
      History settings sources s → Ends (s.evaluate · source) st →
      History settings (sources ++ [source]) st.session

/-- One of the sources has, at the span, a `break` that is in no loop of its function. -/
def HasStray (sources : List (List Glyph)) (s : Span) : Prop :=
  ∃ source ∈ sources, ∃ p, Program.ofGlyphs source .finished = .ok p ∧ s ∈ Stmt.allStrays false p

variable {settings : Settings} {sources : List (List Glyph)} {source : List Glyph} {s : Session}
  {st : Step} {known : Span → Prop}

theorem HasStray.append_left {t : Span} (h : HasStray sources t) (more : List (List Glyph)) :
    HasStray (sources ++ more) t := by
  obtain ⟨src, hsrc, hstray⟩ := h
  exact ⟨src, List.mem_append_left more hsrc, hstray⟩

theorem allAlike_last_strayAt (hknown : ∀ t, HasStray (sources ++ [source]) t → known t)
    (p : Program) (hp : Program.ofGlyphs source .finished = .ok p) :
    Stmt.AllAlike (.strayAt known) false p p := by
  refine Stmt.allAlike_self_of_strays (fun _ => trivial) false (fun _ _ => trivial) ?_
    (.inl trivial)
  intro t ht
  exact hknown t ⟨source, List.mem_append_right sources List.mem_cons_self, p, hp, ht⟩

/-- The functions that a session holds have the stray `break`s of its sources and no others. -/
theorem History.alike_strayAt (h : History settings sources s)
    (hknown : ∀ t, HasStray sources t → known t) : s.heap.Alike (.strayAt known) s.heap := by
  induction h with
  | start => exact alike_initialHeap _
  | step _ hend ih =>
      have hs := ih fun t ht => hknown t (ht.append_left _)
      obtain ⟨maxTurns, rfl, -⟩ := hend
      exact (alike_evaluate hs (allAlike_last_strayAt hknown) maxTurns).1

/-- **A `break` is a matter of the text.**  In every session, if a step ends because of a `break`
outside of a loop, the fault stands where one of the sources that have been run has a `break` that
is in no loop of its function.  So no step ends in this way if there is no such `break` in them,
however their functions are handed around and wherever they are called. -/
theorem hasStray_of_breakOutsideLoop (h : History settings sources s)
    (hend : Ends (s.evaluate · source) st) :
    (∀ f, st.result = .fault (.runtime f) → f.cause.faultClass = .breakOutsideLoop →
      HasStray (sources ++ [source]) f.span) ∧
    ((∀ src ∈ sources ++ [source], ∀ p, Program.ofGlyphs src .finished = .ok p →
      Stmt.allStrays false p = []) → st.result.class? ≠ some .breakOutsideLoop) := by
  have hstray : ∀ f, st.result = .fault (.runtime f) → f.cause.faultClass = .breakOutsideLoop →
      HasStray (sources ++ [source]) f.span := by
    intro f hf hclass
    have hs := h.alike_strayAt fun _ ht => ht.append_left [source]
    obtain ⟨maxTurns, rfl, -⟩ := hend
    have hfault := (alike_evaluate hs (allAlike_last_strayAt fun _ ht => ht) maxTurns).2 f hf
    exact hfault.strays (Cause.faultClass_eq_breakOutsideLoop_iff.mp hclass)
  refine ⟨hstray, ?_⟩
  intro hnone hclass
  obtain ⟨f, hf, hclass⟩ := StepResult.exists_of_class? hclass
  obtain ⟨src, hsrc, p, hp, hmem⟩ := hstray f hf hclass
  rw [hnone src hsrc p hp] at hmem
  exact List.not_mem_nil hmem

/-- `fn f(){break}` -/
def straying : List Glyph :=
  Glyph.ofBytes [102, 110, 32, 102, 40, 41, 123, 98, 114, 101, 97, 107, 125]

/-- `while true{f()}` -/
def looping : List Glyph :=
  Glyph.ofBytes [119, 104, 105, 108, 101, 32, 116, 114, 117, 101, 123, 102, 40, 41, 125]

/-- `fn f(){while true{break}}f()` -/
def leaving : List Glyph :=
  Glyph.ofBytes [102, 110, 32, 102, 40, 41, 123, 119, 104, 105, 108, 101, 32, 116, 114, 117, 101,
    123, 98, 114, 101, 97, 107, 125, 125, 102, 40, 41]

/-- A loop that calls a function with a stray `break`, and a function whose `break` is in a loop of
its own. -/
theorem hasStray_of_breakOutsideLoop_called :
    (∃ st st' f, History ⟨"stray.ham", 10⟩ [straying] st ∧
      Ends (st.evaluate · looping) st' ∧ st'.result = .fault (.runtime f) ∧
      f.cause.faultClass = .breakOutsideLoop ∧ HasStray [straying, looping] f.span) ∧
    ∃ st, Ends ((start ⟨"leaving.ham", 10⟩).evaluate · leaving) st ∧
      st.result.class? ≠ some .breakOutsideLoop := by
  constructor
  · have hfirst : Ends ((start ⟨"stray.ham", 10⟩).evaluate · straying)
        ((start ⟨"stray.ham", 10⟩).evaluate 1 straying) := by
      set_option maxRecDepth 8000 in exact ⟨1, rfl, trivial⟩
    have hhistory : History ⟨"stray.ham", 10⟩ [straying] _ := .step .start hfirst
    have hsecond : Ends (((start ⟨"stray.ham", 10⟩).evaluate 1 straying).session.evaluate · looping)
        (((start ⟨"stray.ham", 10⟩).evaluate 1 straying).session.evaluate 1 looping) := by
      set_option maxRecDepth 8000 in exact ⟨1, rfl, trivial⟩
    have hfault : ∃ f, (((start ⟨"stray.ham", 10⟩).evaluate 1 straying).session.evaluate 1
        looping).result = .fault (.runtime f) ∧ f.cause.faultClass = .breakOutsideLoop := by
      set_option maxRecDepth 8000 in exact ⟨_, rfl, rfl⟩
    obtain ⟨f, hf, hclass⟩ := hfault
    exact ⟨_, _, f, hhistory, hsecond, hf, hclass,
      (hasStray_of_breakOutsideLoop hhistory hsecond).1 f hf hclass⟩
  · have hend : Ends ((start ⟨"leaving.ham", 10⟩).evaluate · leaving)
        ((start ⟨"leaving.ham", 10⟩).evaluate 1 leaving) := by
      set_option maxRecDepth 8000 in exact ⟨1, rfl, trivial⟩
    have hparse : ∃ p, Program.ofGlyphs leaving .finished = .ok p ∧
        Stmt.allStrays false p = [] := by
      set_option maxRecDepth 8000 in exact ⟨_, rfl, rfl⟩
    obtain ⟨p, hp, hnone⟩ := hparse
    refine ⟨_, hend, (hasStray_of_breakOutsideLoop .start hend).2 ?_⟩
    intro src hsrc q hq
    obtain rfl := List.mem_singleton.mp hsrc
    obtain rfl := Except.ok.inj (hp.symm.trans hq)
    exact hnone

end Session

end HamScript
