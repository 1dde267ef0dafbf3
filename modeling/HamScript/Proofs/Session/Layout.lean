/-
# Layout

What blanks, comments and line breaks stand between the tokens of a source makes no difference to
what it means, as long as the same tokens stand on one line with the token before them.  Two such
sources are parsed in the same way, and run in sessions that have just been started they end in the
same way, or diverge both.

The programs are the same but for positions, so the run of each is in step with the run of the
program in which every position has been replaced by the number of its token.
-/
import HamScript.Proofs.Session.Ends
import HamScript.Proofs.Syntax.Layout

namespace HamScript

open Source (Glyph Position Span)

/-- The same program, with all positions moved. -/
def Likeness.moved (f : Position → Position) : Likeness where
  spans s s' := s.relocate f = s'
  strays s s' := s.relocate f = s'
  names _ := True
  loops := True

/-- Results that say the same: a value of one kind and text, or a fault of one cause at the same
tokens. -/
inductive StepResult.SameAt (us vs : List Token) (h h' : Heap) : StepResult → StepResult → Prop
  | value {v v' : Value} :
      v.kind = v'.kind → h.text (some v) = h'.text (some v') →
      StepResult.SameAt us vs h h' (.value v) (.value v')
  | runtime {f f' : RuntimeFault} :
      f.cause = f'.cause → f.span.relocate (Token.place us) = f'.span.relocate (Token.place vs) →
      StepResult.SameAt us vs h h' (.fault (.runtime f)) (.fault (.runtime f'))
  | text {e e' : SyntaxFault} :
      e.SameAt us vs e' → StepResult.SameAt us vs h h' (.fault (.text e)) (.fault (.text e'))

/-- Steps that have printed the same and say the same. -/
structure Step.SameAt (us vs : List Token) (st st' : Step) : Prop where
  output_eq : st.output = st'.output
  result : st.result.SameAt us vs st.session.heap st'.session.heap st'.result

/-- Two steps that are in step with a third one, each with its positions replaced by places. -/
theorem Step.sameAt_of_alike {us vs : List Token} {st st' st₀ : Step}
    (h : st.Alike (.moved (Token.place us)) st₀) (h' : st'.Alike (.moved (Token.place vs)) st₀)
    (hmisuse : ∀ m, st.result ≠ .misuse m) :
    (st.result = .exhausted ∧ st'.result = .exhausted) ∨
    (st.result.IsFinal ∧ st'.result.IsFinal ∧ st.SameAt us vs st') := by
  have houtput := h.output_eq.trans h'.output_eq.symm
  have hheap := h.heap
  have hheap' := h'.heap
  have hresult := h.result
  have hresult' := h'.result
  have hsame : st.result.SameAt us vs st.session.heap st'.session.heap st'.result →
      st.SameAt us vs st' := fun hr => ⟨houtput, hr⟩
  generalize st.result = r, st'.result = r', st₀.result = r₀ at hresult hresult' hmisuse hsame ⊢
  cases hresult with
  | value hv =>
      cases hresult' with
      | value hv' =>
          have htext := (hheap.text_eq (.some hv)).trans (hheap'.text_eq (.some hv')).symm
          exact .inr ⟨trivial, trivial, hsame (.value (hv.kind_eq.trans hv'.kind_eq.symm) htext)⟩
  | fault hf =>
      cases hresult' with
      | fault hf' =>
          have hcause := hf.cause_eq.trans hf'.cause_eq.symm
          exact .inr ⟨trivial, trivial, hsame (.runtime hcause (hf.spans.trans hf'.spans.symm))⟩
  | misuse m => exact absurd rfl (hmisuse m)
  | exhausted =>
      cases hresult' with
      | exhausted => exact .inl ⟨rfl, rfl⟩

namespace Session

/-- In sessions that have just been started a program and the same program moved are in step. -/
theorem alike_run_relocate (f : Position → Position) (file file' : String) (depth maxTurns : Nat)
    (traced : Bool) (p : Program) :
    ((start ⟨file, depth⟩).run maxTurns traced p).Alike (.moved f)
      ((start ⟨file', depth⟩).run maxTurns traced (p.relocate f)) := by
  have hdepth : (start ⟨file, depth⟩).settings.maxDepth =
      (start ⟨file', depth⟩).settings.maxDepth := rfl
  have hp : Stmt.AllAlike (.moved f) false p (p.relocate f) :=
    Stmt.allAlike_relocate (fun _ => trivial) p false ⟨fun _ _ => rfl, fun _ _ => rfl⟩ (.inl trivial)
  exact alike_run hdepth (alike_initialHeap _) hp maxTurns traced

/-- **Layout.**  Let the tokens of two sources, with the end after them, have the same kinds and
texts one by one, and break lines between the same tokens.  Then both sources are parsed to
programs that are the same but for positions, or have a fault of one kind about the same tokens;
and in sessions that have just been started, with one limit on calls, both diverge, or both end with
the same output and with values of one kind and text or faults of one cause. -/
theorem evaluate_of_sameRow (a b : List UInt8) {us vs : List Token}
    (hus : (Scan.ofGlyphs (Glyph.ofBytes a) .finished).row = .ok us)
    (hvs : (Scan.ofGlyphs (Glyph.ofBytes b) .finished).row = .ok vs) (h : Token.SameRow us vs)
    (file file' : String) (depth : Nat) :
    Program.SameParse us vs (Program.ofGlyphs (Glyph.ofBytes a) .finished)
      (Program.ofGlyphs (Glyph.ofBytes b) .finished) ∧
    ((Diverges ((start ⟨file, depth⟩).evaluate · (Glyph.ofBytes a)) ∧
      Diverges ((start ⟨file', depth⟩).evaluate · (Glyph.ofBytes b))) ∨
    ∃ st st', Ends ((start ⟨file, depth⟩).evaluate · (Glyph.ofBytes a)) st ∧
      Ends ((start ⟨file', depth⟩).evaluate · (Glyph.ofBytes b)) st' ∧ st.SameAt us vs st') := by
  have hlexes : Lexes .finished .start (Glyph.ofBytes a) _ _ := lexes_iff.mpr rfl
  have hparse : Program.SameParse us vs (Program.ofGlyphs (Glyph.ofBytes a) .finished)
      (Program.ofGlyphs (Glyph.ofBytes b) .finished) :=
    Program.sameParse_of_rows hus hvs (Scan.rising_of_row hus) (Scan.rising_of_row hvs)
      (fun _ ht => hlexes.kind_ne_eof ht) h
  refine ⟨hparse, diverge_or_end (steady_evaluate _ _) (steady_evaluate _ _) 0 fun maxTurns _ => ?_⟩
  unfold evaluate
  generalize Program.ofGlyphs (Glyph.ofBytes a) .finished = x,
    Program.ofGlyphs (Glyph.ofBytes b) .finished = y at hparse
  cases hparse with
  | error he => exact .inr ⟨trivial, trivial, rfl, .text he⟩
  | @ok P Q hPQ =>
      -- the program of places, to which both are in step
      have hP := alike_run_relocate (Token.place us) file file' depth maxTurns false P
      have hQ := alike_run_relocate (Token.place vs) file' file' depth maxTurns false Q
      rw [hPQ] at hP
      exact Step.sameAt_of_alike hP hQ ((ready_start ⟨file, depth⟩).run maxTurns false P).2

/-- `1` and, on the next line, `-2`; and the same with a comment, an empty line and a blank. -/
theorem evaluate_of_sameRow_spaced :
    let a : List UInt8 := [49, 10, 45, 50]
    let b : List UInt8 := [49, 32, 47, 47, 99, 10, 10, 45, 32, 50]
    ∃ us vs, (Scan.ofGlyphs (Glyph.ofBytes a) .finished).row = .ok us ∧
      (Scan.ofGlyphs (Glyph.ofBytes b) .finished).row = .ok vs ∧
      Token.SameRow us vs ∧
      Program.SameParse us vs (Program.ofGlyphs (Glyph.ofBytes a) .finished)
        (Program.ofGlyphs (Glyph.ofBytes b) .finished) ∧
      ((Diverges ((start ⟨"a.ham", 10⟩).evaluate · (Glyph.ofBytes a)) ∧
        Diverges ((start ⟨"b.ham", 10⟩).evaluate · (Glyph.ofBytes b))) ∨
      ∃ st st', Ends ((start ⟨"a.ham", 10⟩).evaluate · (Glyph.ofBytes a)) st ∧
        Ends ((start ⟨"b.ham", 10⟩).evaluate · (Glyph.ofBytes b)) st' ∧ st.SameAt us vs st') := by
  intro a b
  have hrows : ∃ us vs, (Scan.ofGlyphs (Glyph.ofBytes a) .finished).row = .ok us ∧
      (Scan.ofGlyphs (Glyph.ofBytes b) .finished).row = .ok vs ∧ Token.SameRow us vs :=
    ⟨_, _, rfl, rfl, ⟨rfl, rfl⟩⟩
  obtain ⟨us, vs, hus, hvs, hsame⟩ := hrows
  exact ⟨us, vs, hus, hvs, hsame, evaluate_of_sameRow a b hus hvs hsame "a.ham" "b.ham" 10⟩

end Session

end HamScript
