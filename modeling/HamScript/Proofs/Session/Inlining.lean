/-
# A step and its inlining

Two sources can be run in a session one after the other, or as one source with a line feed between
them.  If the first one ends with a value and not by a `return`, it makes no difference, but for
positions and for the value where the second source has none of its own.

Parsing is compositional over lines, so the whole is the statements of the first source and then
those of the second, moved.  The first ones are run as before and leave the same heap; nothing but
the heap is carried over.  From there on the two runs of the second source are in step: they differ
in the positions in its statements, which are moved, and not in those in the functions that the heap
holds, which are kept (`Likeness.inlining`).

A span of the heap may be one of the second source too, and then the likeness leaves it open whether
it is moved.  What tells the two apart is a third run, of the second source with its spans marked so
that none is in the heap: both runs are read off from that one, where each span says whether it is
moved (`ToldApart`).
-/
import HamScript.Proofs.Session.Ends
import HamScript.Proofs.Syntax.Lines

namespace HamScript

open Source (Glyph Position Span)

/-- Spans of functions that the heap holds are kept, and those of the program are moved. -/
def Likeness.inlining (h : Heap) (p : Program) (move : Position → Position) : Likeness where
  spans s s' := (h.HasSpan s ∧ s' = s) ∨ (s ∈ Stmt.allSpans p ∧ s' = s.relocate move)
  strays s s' := (h.HasSpan s ∧ s' = s) ∨ (s ∈ Stmt.allSpans p ∧ s' = s.relocate move)
  names _ := True
  loops := True

theorem Heap.alike_inlining (h : Heap) (p : Program) (move : Position → Position) :
    h.Alike (.inlining h p move) h :=
  Heap.alike_self (fun _ => trivial) trivial fun _ hs => ⟨.inl ⟨hs, rfl⟩, .inl ⟨hs, rfl⟩⟩

theorem Stmt.allAlike_inlining (h : Heap) (p : Program) (move : Position → Position) :
    Stmt.AllAlike (.inlining h p move) false p (p.relocate move) :=
  Stmt.allAlike_relocate (fun _ => trivial) p false
    ⟨fun _ hs => .inr ⟨hs, rfl⟩,
      fun _ hs => .inr ⟨Stmt.mem_allSpans_of_mem_allStrays p false hs, rfl⟩⟩ (.inl trivial)

/-- A span that the heap holds is that on the other side, and any other is that on the other side,
moved; so the span on this side is determined. -/
def Likeness.unmarked (h : Heap) (move : Position → Position) : Likeness where
  spans s s₀ := (h.HasSpan s₀ ∧ s = s₀) ∨ (¬ h.HasSpan s₀ ∧ s = s₀.relocate move)
  strays s s₀ := (h.HasSpan s₀ ∧ s = s₀) ∨ (¬ h.HasSpan s₀ ∧ s = s₀.relocate move)
  names _ := True
  loops := True

theorem Heap.alike_unmarked (h : Heap) (move : Position → Position) :
    h.Alike (.unmarked h move) h :=
  Heap.alike_self (fun _ => trivial) trivial fun _ hs => ⟨.inl ⟨hs, rfl⟩, .inl ⟨hs, rfl⟩⟩

/-- The mark can be taken off, and no marked span of the program is one that the heap holds. -/
structure Heap.Marks (h : Heap) (p : Program) (mark unmark : Position → Position) : Prop where
  unmark_mark : ∀ q, unmark (mark q) = q
  fresh : ∀ s ∈ Stmt.allSpans p, ¬ h.HasSpan (s.relocate mark)

/-- A program moved is its marked form with the marks taken off and then moved. -/
theorem Heap.Marks.allAlike_unmarked {h : Heap} {p : Program} {mark unmark : Position → Position}
    (hm : h.Marks p mark unmark) (move : Position → Position) :
    Stmt.AllAlike (.unmarked h (move ∘ unmark)) false (p.relocate move) (p.relocate mark) := by
  have hspan : ∀ s ∈ Stmt.allSpans p, (Likeness.unmarked h (move ∘ unmark)).spans
      (s.relocate move) (s.relocate mark) := by
    intro s hs
    refine .inr ⟨hm.fresh s hs, ?_⟩
    simp only [Source.Span.relocate, Function.comp_apply, hm.unmark_mark]
  exact Stmt.allAlike_moved p false (fun _ _ => trivial)
    ⟨hspan, fun s hs => hspan s (Stmt.mem_allSpans_of_mem_allStrays p false hs)⟩ (.inl trivial)

/-- All spans in the functions that the heap holds. -/
def Heap.spans (h : Heap) : List Span :=
  h.scopes.toList.flatMap fun scope => scope.bindings.flatMap fun b => b.2.elim [] Value.spans

theorem Heap.HasSpan.mem_spans {h : Heap} {s : Span} (hs : h.HasSpan s) : s ∈ h.spans := by
  obtain ⟨i, m, v, hfind, hmem⟩ := hs
  obtain ⟨scope, hscope, hslot⟩ := Option.bind_eq_some_iff.mp hfind
  obtain ⟨before, after, hbindings, -⟩ := List.lookup_eq_some_iff.mp hslot
  refine List.mem_flatMap.mpr ⟨scope, ?_, List.mem_flatMap.mpr ⟨(m, some v), ?_, hmem⟩⟩
  · exact Array.mem_toList_iff.mpr (Array.mem_of_getElem? hscope)
  · rw [hbindings]
    exact List.mem_append_right before List.mem_cons_self

theorem Source.Span.exists_bound (ss : List Span) :
    ∃ n : Nat, ∀ s ∈ ss, s.first.offset.natAbs ≤ n := by
  induction ss with
  | nil => exact ⟨0, fun s hs => nomatch hs⟩
  | cons s ss ih =>
      obtain ⟨n, hn⟩ := ih
      refine ⟨max s.first.offset.natAbs n, List.forall_mem_cons.mpr ⟨Nat.le_max_left _ _, ?_⟩⟩
      exact fun t ht => Nat.le_trans (hn t ht) (Nat.le_max_right _ _)

/-- Offsets beyond all that occur are a mark. -/
theorem Heap.exists_marks (h : Heap) (p : Program) : ∃ mark unmark, h.Marks p mark unmark := by
  obtain ⟨n, hn⟩ := Source.Span.exists_bound h.spans
  obtain ⟨m, hm⟩ := Source.Span.exists_bound (Stmt.allSpans p)
  refine ⟨Position.moveBy (n + m + 1) 0,
    fun q => ⟨q.offset - (n + m + 1 : Nat), q.line, q.column⟩, ?_, ?_⟩
  · intro q
    simp [Position.moveBy]
  · intro s hs hheap
    have hbound := hn _ hheap.mem_spans
    have hown := hm s hs
    simp only [Source.Span.relocate, Position.moveBy] at hbound
    omega

/-- How the results of a step and of its inlining go together.  A step that leaves no value of its own
ends with the unit; its inlining ends with the value `v` that was there before. -/
inductive StepResult.Inlines (L : Likeness) (own : Prop) (v : Value) :
    StepResult → StepResult → Prop
  | fault {f f' : RuntimeFault} :
      f.Alike L f' → StepResult.Inlines L own v (.fault (.runtime f)) (.fault (.runtime f'))
  | value {u u' : Value} : own → u.Alike L u' → StepResult.Inlines L own v (.value u) (.value u')
  | carried : ¬ own → StepResult.Inlines L own v (.value .unit) (.value v)

theorem Outcome.exists_of_map_value {α β : Type} {f : α → β} {o : Outcome α} {b : β} {w : World}
    (h : o.map f = .value b w) : ∃ a, o = .value a w := by
  cases o with
  | value a w' =>
      obtain ⟨-, rfl⟩ := Outcome.value.inj h
      exact ⟨a, rfl⟩
  | fault | misuse | exhausted => exact nomatch h

/-- What a source that parses, a line feed and another one that parses are parsed to. -/
theorem Program.ofGlyphs_append_feed {a b : List UInt8} {A B : Program}
    (hA : Program.ofGlyphs (Glyph.ofBytes a) .finished = .ok A)
    (hB : Program.ofGlyphs (Glyph.ofBytes b) .finished = .ok B) :
    Program.ofGlyphs (Glyph.ofBytes (a ++ 10 :: b)) .finished =
      .ok (A ++ B.relocate (Position.moveBy (a.length + 1) (1 + a.count 10))) := by
  obtain ⟨ts, p, hscan, hderives⟩ := Program.exists_derives hA
  have hfollows := Parser.follows_append_feed hscan hderives (Glyph.ofBytes b) .finished
  simp only [Glyph.byteCount_ofBytes, Glyph.countFeeds_ofBytes, ← Glyph.ofBytes_append_feed]
    at hfollows
  obtain ⟨s, hs⟩ := Program.ofScan_eq_ok_iff.mp hB
  exact Program.ofScan_eq_ok_iff.mpr (hfollows.of_done hs)

namespace Session

/-- The run of the program comes to a `return` outside of all functions. -/
def ReturnsAtTop (s : Session) (p : Program) : Prop :=
  ∃ maxTurns v w,
    Eval.topBlock (s.limits maxTurns false) globals p ⟨s.heap, "", []⟩ = .value (.returned v) w

theorem evaluate_of_ok {s : Session} {source : List Glyph} {p : Program}
    (h : Program.ofGlyphs source .finished = .ok p) (maxTurns : Nat) :
    s.evaluate maxTurns source = s.run maxTurns false p := by
  rw [evaluate, h]

/-- A run that ends in another way than by a `return` does not come to one with more turns. -/
theorem not_returnsAtTop {s : Session} {maxTurns : Nat} {p : Program} {v : Value} {w : World}
    (h : Eval.topBlock (s.limits maxTurns false) globals p ⟨s.heap, "", []⟩ = .value (.next v) w) :
    ¬ s.ReturnsAtTop p := by
  rintro ⟨maxTurns', u, w', h'⟩
  have hne : Eval.topBlock (s.limits maxTurns false) globals p ⟨s.heap, "", []⟩ ≠ .exhausted :=
    fun hex => nomatch h.symm.trans hex
  have hne' : Eval.topBlock (s.limits maxTurns' false) globals p ⟨s.heap, "", []⟩ ≠ .exhausted :=
    fun hex => nomatch h'.symm.trans hex
  have hmax := Eval.topBlock_of_le (Nat.le_max_left maxTurns maxTurns') hne
  have hmax' := Eval.topBlock_of_le (Nat.le_max_right maxTurns maxTurns') hne'
  exact nomatch h.symm.trans (hmax.symm.trans (hmax'.trans h'))

/-- A step that ends with a value leaves the world that the run of its program leaves. -/
theorem exists_of_run_value {s : Session} {maxTurns : Nat} {traced : Bool} {p : Program} {v : Value}
    (h : (s.run maxTurns traced p).result = .value v) :
    ∃ w, Eval.program (s.limits maxTurns traced) globals p ⟨s.heap, "", []⟩ = .value v w ∧
      s.run maxTurns traced p = s.conclude (.value v w) := by
  unfold run at h ⊢
  cases hrun : Eval.program (s.limits maxTurns traced) globals p ⟨s.heap, "", []⟩ with
  | value u w =>
      rw [hrun] at h
      obtain rfl := StepResult.value.inj h
      exact ⟨w, rfl, rfl⟩
  | fault | misuse | exhausted =>
      rw [hrun] at h
      exact nomatch h

/-- What stands after a program that no `return` ends is run in the world that this leaves. -/
theorem program_append {s : Session} {maxTurns : Nat} {p : Program} {v : Value} {w : World}
    (h : Eval.program (s.limits maxTurns false) globals p ⟨s.heap, "", []⟩ = .value v w)
    (hreturn : ¬ s.ReturnsAtTop p) (q : Program) :
    Eval.program (s.limits maxTurns false) globals (p ++ q) ⟨s.heap, "", []⟩ =
      Eval.programFrom (s.limits maxTurns false) globals v q w := by
  have hanswer := h
  rw [Eval.program, Eval.programFrom_eq] at hanswer
  obtain ⟨v?, hv?⟩ := Outcome.exists_of_map_value hanswer
  rcases Eval.answer_cases hv? with ⟨u, -, hblock⟩ | ⟨hblock, -⟩
  · exact absurd ⟨maxTurns, u, w, hblock⟩ hreturn
  · exact Eval.programFrom_append hblock h q

/-- A program leaves a value if one of its statements does, or by a `return`. -/
theorem leaves_iff {s : Session} {maxTurns : Nat} {p : Program} {v? : Option Value} {w : World}
    (h : Eval.answer (s.limits maxTurns false) globals p ⟨s.heap, "", []⟩ = .value v? w) :
    (p.any Eval.leavesValue = true ∨ s.ReturnsAtTop p) ↔ v?.isSome = true := by
  rcases Eval.answer_cases h with ⟨u, rfl, hblock⟩ | ⟨hblock, hsome⟩
  · exact ⟨fun _ => rfl, fun _ => .inr ⟨maxTurns, u, w, hblock⟩⟩
  · rw [hsome, or_iff_left (not_returnsAtTop hblock)]

/-- How a step goes together with its inlining: what it prints comes after `before`, the heaps that
are left are alike, and so are the results but for the value that is carried. -/
structure Inlines (L : Likeness) (own : Prop) (v : Value) (before : String) (next inlined : Step) :
    Prop where
  output_eq : inlined.output = before ++ next.output
  heap : next.session.heap.Alike L inlined.session.heap
  result : next.result.Inlines L own v inlined.result

/-- What has been printed since, where there was nothing printed on the one side. -/
theorem output_eq_of_since {L : Likeness} {h : Heap} {w w₁ w₁' : World}
    (hsince : World.Since L ⟨h, "", []⟩ w w₁ w₁') : w₁'.output = w.output ++ w₁.output := by
  obtain ⟨text, htext, htext'⟩ := hsince.output
  rw [htext, htext', String.empty_append]

theorem conclude_inlines {L : Likeness} (s s' : Session) {own : Prop} (v : Value) {h : Heap}
    {w : World} {o o' : Outcome (Option Value)}
    (halike : Outcome.Alike L (Option.Rel (Value.Alike L)) ⟨h, "", []⟩ w o o')
    (hown : ∀ v? w₁, o = .value v? w₁ → (own ↔ v?.isSome = true)) (hmisuse : ∀ m, o ≠ .misuse m) :
    let next := s.conclude (o.map (·.getD .unit))
    let inlined := s'.conclude (o'.map (·.getD v))
    (next.result = .exhausted ∧ inlined.result = .exhausted) ∨
    (next.result.IsFinal ∧ inlined.result.IsFinal ∧ Inlines L own v w.output next inlined) := by
  intro next inlined
  cases halike with
  | @value v? v?' w₁ w₁' hv hsince =>
      have hresult : next.result.Inlines L own v inlined.result := by
        have hiff := hown v? w₁ rfl
        cases hv with
        | none => exact .carried fun how => nomatch hiff.mp how
        | some hv => exact .value (hiff.mpr rfl) hv
      exact .inr ⟨trivial, trivial, output_eq_of_since hsince, hsince.heap, hresult⟩
  | fault hf hsince =>
      exact .inr ⟨trivial, trivial, output_eq_of_since hsince, hsince.heap, .fault hf⟩
  | misuse m => exact absurd rfl (hmisuse m)
  | exhausted => exact .inl ⟨rfl, rfl⟩

/-- A program run in a session, and the same moved, run in the world in which the session has been
left with the value `v`. -/
theorem run_inlines (s : Session) (v : Value) {w : World} (hs : Ready { s with heap := w.heap })
    (maxTurns : Nat) (p : Program) (move : Position → Position) :
    let s₁ : Session := { s with heap := w.heap }
    let next := s₁.run maxTurns false p
    let inlined := s.conclude
      (Eval.programFrom (s.limits maxTurns false) globals v (p.relocate move) w)
    (next.result = .exhausted ∧ inlined.result = .exhausted) ∨
    (next.result.IsFinal ∧ inlined.result.IsFinal ∧
      Inlines (.inlining w.heap p move) (p.any Eval.leavesValue = true ∨ s₁.ReturnsAtTop p) v
        w.output next inlined) := by
  intro s₁ next inlined
  have halike := Eval.agree_answer (s.limits maxTurns false) globals p
    (Stmt.allAlike_inlining w.heap p move) ⟨w.heap, "", []⟩ w (w.heap.alike_inlining p move)
  have hnext : next = s₁.conclude
      ((Eval.answer (s.limits maxTurns false) globals p ⟨w.heap, "", []⟩).map (·.getD .unit)) :=
    congrArg s₁.conclude (Eval.programFrom_eq .unit p _)
  have hinlined : inlined = s.conclude
      ((Eval.answer (s.limits maxTurns false) globals (p.relocate move) w).map (·.getD v)) :=
    congrArg s.conclude (Eval.programFrom_eq v _ w)
  have hmisuse : ∀ m, Eval.answer (s.limits maxTurns false) globals p ⟨w.heap, "", []⟩ ≠
      .misuse m := by
    intro m hm
    rw [hm] at hnext
    exact (hs.run maxTurns false p).2 m (congrArg Step.result hnext)
  rw [hnext, hinlined]
  exact conclude_inlines s₁ s v halike (fun _ _ ho => leaves_iff (s := s₁) ho) hmisuse

/-! ## Marked runs -/

/-- The step can be read off from `st₀`: its heap is like the one there, and a fault that it ends
with is like one there. -/
structure ReadsOff (L : Likeness) (st st₀ : Step) : Prop where
  heap : st.session.heap.Alike L st₀.session.heap
  fault : ∀ f, st.result = .fault (.runtime f) →
    ∃ f₀, st₀.result = .fault (.runtime f₀) ∧ f.Alike L f₀

/-- In the step `next` of the program and in that of the program moved, `inlined`, a span of the
program is told apart from the same span in the heap: with a mark on the spans of the program the
step ends too, and from it both steps are read off, the one by taking the marks off and the other by
moving besides. -/
def ToldApart (s : Session) (p : Program) (move : Position → Position) (next inlined : Step) :
    Prop :=
  ∃ mark unmark st₀, s.heap.Marks p mark unmark ∧ Ends (s.run · false (p.relocate mark)) st₀ ∧
    ReadsOff (.unmarked s.heap unmark) next st₀ ∧
    ReadsOff (.unmarked s.heap (move ∘ unmark)) inlined st₀

theorem ReadsOff.run {L : Likeness} (s s₀ : Session)
    (hdepth : s.settings.maxDepth = s₀.settings.maxDepth) {w : World}
    (hheap : w.heap.Alike L s₀.heap) {p p₀ : Program} (hp : Stmt.AllAlike L false p p₀) (v : Value)
    (maxTurns : Nat) :
    let st := s.conclude (Eval.programFrom (s.limits maxTurns false) globals v p w)
    let st₀ := s₀.run maxTurns false p₀
    st.result.IsFinal → st₀.result.IsFinal ∧ ReadsOff L st st₀ := by
  have hlimits : s₀.limits maxTurns false = s.limits maxTurns false := by
    rw [limits, limits, hdepth]
  have h := Eval.agree_answer (s.limits maxTurns false) globals p hp w ⟨s₀.heap, "", []⟩ hheap
  unfold Session.run Eval.program
  rw [hlimits, Eval.programFrom_eq, Eval.programFrom_eq]
  generalize Eval.answer (s.limits maxTurns false) globals p w = o,
    Eval.answer (s.limits maxTurns false) globals p₀ ⟨s₀.heap, "", []⟩ = o₀ at h
  intro st st₀ hfinal
  cases h with
  | value _ hsince => exact ⟨trivial, hsince.heap, fun _ hf => by cases hf⟩
  | @fault f f₀ _ _ hf hsince =>
      refine ⟨trivial, hsince.heap, fun g hg => ⟨f₀, rfl, ?_⟩⟩
      cases hg
      exact hf
  | misuse m => exact absurd hfinal id
  | exhausted => exact absurd hfinal id

/-- A step that ends, of a program in a session, and one of the same program moved, in the world in
which the session has been left with the value `v`: spans are told apart. -/
theorem toldApart_run (s : Session) (v : Value) {w : World} (maxTurns : Nat) (p : Program)
    (move : Position → Position) :
    let s₁ : Session := { s with heap := w.heap }
    let next := s₁.run maxTurns false p
    let inlined := s.conclude
      (Eval.programFrom (s.limits maxTurns false) globals v (p.relocate move) w)
    next.result.IsFinal → inlined.result.IsFinal → s₁.ToldApart p move next inlined := by
  intro s₁ next inlined hnext hinlined
  obtain ⟨mark, unmark, hmarks⟩ := w.heap.exists_marks p
  have hp : Stmt.AllAlike (.unmarked w.heap unmark) false p (p.relocate mark) := by
    have h := hmarks.allAlike_unmarked id
    rwa [Program.relocate, Stmt.relocateAll_id] at h
  obtain ⟨hfinal, hread⟩ := ReadsOff.run s₁ s₁ (w := ⟨w.heap, "", []⟩) rfl
    (w.heap.alike_unmarked unmark) hp .unit maxTurns hnext
  obtain ⟨-, hread'⟩ := ReadsOff.run s s₁ rfl
    (w.heap.alike_unmarked (move ∘ unmark)) (hmarks.allAlike_unmarked move) v maxTurns hinlined
  exact ⟨mark, unmark, _, hmarks, ends_of_isFinal hfinal, hread, hread'⟩

/-- **A step and its inlining.**  In a session that can be come to, let the source `a` end with the
value `v` and without a `return` outside of all functions.  Then to run the source `b` next, and to
run `a`, a line feed and `b` as one source in its place, is the same: both diverge, or both end, with
the same output in all and with heaps and results that are alike.  The spans in `b` are moved and
those of the functions that `a` has left are kept, also where both have the same span; and where `b`
has no value of its own, the one source ends with `v`. -/
theorem evaluate_append_feed {s : Session} (hs : s.Reachable) (a b : List UInt8) {A B : Program}
    (hA : Program.ofGlyphs (Glyph.ofBytes a) .finished = .ok A)
    (hB : Program.ofGlyphs (Glyph.ofBytes b) .finished = .ok B) {st : Step} {v : Value}
    (hend : Ends (s.evaluate · (Glyph.ofBytes a)) st) (hv : st.result = .value v)
    (hreturn : ¬ s.ReturnsAtTop A) :
    let L := Likeness.inlining st.session.heap B
      (Position.moveBy (a.length + 1) (1 + a.count 10))
    let next := (st.session.evaluate · (Glyph.ofBytes b))
    let inlined := (s.evaluate · (Glyph.ofBytes (a ++ 10 :: b)))
    (Diverges next ∧ Diverges inlined) ∨
    ∃ st₁ st₂, Ends next st₁ ∧ Ends inlined st₂ ∧
      Inlines L (B.any Eval.leavesValue = true ∨ st.session.ReturnsAtTop B) v st.output st₁ st₂ ∧
      st.session.ToldApart B (Position.moveBy (a.length + 1) (1 + a.count 10)) st₁ st₂ := by
  have hAB := Program.ofGlyphs_append_feed hA hB
  obtain ⟨enough, hst, -⟩ := hend
  dsimp only at hst
  rw [evaluate_of_ok hA] at hst
  obtain ⟨w, hprogram, hw⟩ := exists_of_run_value ((congrArg Step.result hst).trans hv)
  have hready : Ready { s with heap := w.heap } := by
    have h := (hs.ready.run enough false A).1
    rw [hw] at h
    exact h
  obtain rfl : s.conclude (.value v w) = st := hw.symm.trans hst
  intro L next inlined
  refine diverge_or_end (steady_evaluate _ _) (steady_evaluate _ _) enough fun maxTurns hle => ?_
  have hlater : Eval.program (s.limits maxTurns false) globals A ⟨s.heap, "", []⟩ = .value v w :=
    (Eval.program_of_le hle fun hex => nomatch hprogram.symm.trans hex).trans hprogram
  have hinlined : inlined maxTurns = s.conclude
      (Eval.programFrom (s.limits maxTurns false) globals v
        (B.relocate (Position.moveBy (a.length + 1) (1 + a.count 10))) w) :=
    (evaluate_of_ok hAB maxTurns).trans (congrArg s.conclude (program_append hlater hreturn _))
  have hnext : next maxTurns = Session.run { s with heap := w.heap } maxTurns false B :=
    evaluate_of_ok hB maxTurns
  rw [hnext, hinlined]
  refine (run_inlines s v hready maxTurns B _).imp_right fun ⟨hfinal, hfinal', hinlines⟩ => ?_
  exact ⟨hfinal, hfinal', hinlines, toldApart_run s v maxTurns B _ hfinal hfinal'⟩

/-- A function and a value, and then a definition, which has no value of its own. -/
theorem evaluate_append_feed_carried :
    let s := start ⟨"carried.ham", 10⟩
    let a : List UInt8 := [102, 110, 32, 102, 40, 41, 123, 103, 125, 10, 55]
    let b : List UInt8 := [108, 101, 116, 32, 121, 61, 102]
    ∃ A B st, Program.ofGlyphs (Glyph.ofBytes a) .finished = .ok A ∧
      Program.ofGlyphs (Glyph.ofBytes b) .finished = .ok B ∧
      Ends (s.evaluate · (Glyph.ofBytes a)) st ∧ st.result = .value (.number (.int 7)) ∧
      ¬ s.ReturnsAtTop A ∧
      ((Diverges (st.session.evaluate · (Glyph.ofBytes b)) ∧
        Diverges (s.evaluate · (Glyph.ofBytes (a ++ 10 :: b)))) ∨
      ∃ st₁ st₂, Ends (st.session.evaluate · (Glyph.ofBytes b)) st₁ ∧
        Ends (s.evaluate · (Glyph.ofBytes (a ++ 10 :: b))) st₂ ∧
        Inlines (.inlining st.session.heap B (Position.moveBy 12 2))
          (B.any Eval.leavesValue = true ∨ st.session.ReturnsAtTop B) (.number (.int 7)) st.output
          st₁ st₂ ∧
        st.session.ToldApart B (Position.moveBy 12 2) st₁ st₂) := by
  intro s a b
  have hA : ∃ A, Program.ofGlyphs (Glyph.ofBytes a) .finished = .ok A ∧ ¬ s.ReturnsAtTop A := by
    set_option maxRecDepth 8000 in exact ⟨_, rfl, @not_returnsAtTop s 0 _ _ _ rfl⟩
  have hB : ∃ B, Program.ofGlyphs (Glyph.ofBytes b) .finished = .ok B := by
    set_option maxRecDepth 8000 in exact ⟨_, rfl⟩
  have hend : Ends (s.evaluate · (Glyph.ofBytes a)) (s.evaluate 0 (Glyph.ofBytes a)) := by
    set_option maxRecDepth 8000 in exact ⟨0, rfl, trivial⟩
  have hvalue : (s.evaluate 0 (Glyph.ofBytes a)).result = .value (.number (.int 7)) := by
    set_option maxRecDepth 8000 in rfl
  obtain ⟨A, hA, hreturn⟩ := hA
  obtain ⟨B, hB⟩ := hB
  exact ⟨A, B, _, hA, hB, hend, hvalue, hreturn,
    evaluate_append_feed (.start _) a b hA hB hend hvalue hreturn⟩

end Session

end HamScript
