/-
# When steps end

A step of a session is a function of the number of turns that its loops may take.  It ends if some
number is enough (`Ends`), and it diverges if none is (`Diverges`).  What it ends with does not
depend on the number (`Steady`, `Ends.unique`).

Two passes through the evaluator are put to use here.  The one for runs in step says that sessions
and programs that are alike make steps that are alike (`alike_run`); with a likeness that has no
loops, that the step of a program without loops ends.  The one for limits says what a higher limit
on calls does: a step that stays below the lower limit is the same, and one that goes over it has
printed a beginning of what it prints then.
-/
import HamScript.Proofs.Eval.Limits
import HamScript.Proofs.Session.Safety

namespace HamScript

open Source (Glyph)

/-- The step has come to an end. -/
def StepResult.IsFinal : StepResult → Prop
  | .value _ => True
  | .fault _ => True
  | .misuse _ => False
  | .exhausted => False

theorem StepResult.IsFinal.ne_exhausted {r : StepResult} (h : r.IsFinal) : r ≠ .exhausted := by
  rintro rfl
  exact h

/-- The class of the fault that has stopped the run, if one has. -/
def StepResult.class? : StepResult → Option FaultClass
  | .fault (.runtime f) => some f.cause.faultClass
  | _ => none

/-- Results of runs that have gone the same way. -/
inductive StepResult.Alike (L : Likeness) : StepResult → StepResult → Prop
  | value {v v' : Value} : v.Alike L v' → StepResult.Alike L (.value v) (.value v')
  | fault {f f' : RuntimeFault} :
      f.Alike L f' → StepResult.Alike L (.fault (.runtime f)) (.fault (.runtime f'))
  | misuse (m : Misuse) : StepResult.Alike L (.misuse m) (.misuse m)
  | exhausted : L.loops → StepResult.Alike L .exhausted .exhausted

/-- Steps that have gone the same way: they have printed and recorded the same, and have left heaps
that are alike. -/
structure Step.Alike (L : Likeness) (st st' : Step) : Prop where
  result : st.result.Alike L st'.result
  output_eq : st.output = st'.output
  calls_eq : st.calls = st'.calls
  heap : st.session.heap.Alike L st'.session.heap

namespace Session

/-! ## Ending and diverging -/

/-- With enough turns the step ends, and it ends as `st`. -/
def Ends (step : Nat → Step) (st : Step) : Prop :=
  ∃ maxTurns, step maxTurns = st ∧ st.result.IsFinal

/-- No number of turns is enough for the step. -/
def Diverges (step : Nat → Step) : Prop :=
  ∀ maxTurns, (step maxTurns).result = .exhausted

/-- More turns than enough change nothing. -/
def Steady (step : Nat → Step) : Prop :=
  ∀ maxTurns maxTurns', maxTurns ≤ maxTurns' → (step maxTurns).result ≠ .exhausted →
    step maxTurns' = step maxTurns

section
variable {step step' : Nat → Step} {st : Step}

theorem ends_of_isFinal {maxTurns : Nat} (h : (step maxTurns).result.IsFinal) :
    Ends step (step maxTurns) :=
  ⟨maxTurns, rfl, h⟩

theorem Ends.isFinal (h : Ends step st) : st.result.IsFinal := by
  obtain ⟨_, -, hfinal⟩ := h
  exact hfinal

theorem Ends.eventually (h : Ends step st) (hsteady : Steady step) :
    ∃ enough, ∀ maxTurns, enough ≤ maxTurns → step maxTurns = st := by
  obtain ⟨enough, rfl, hfinal⟩ := h
  exact ⟨enough, fun maxTurns hle => hsteady enough maxTurns hle hfinal.ne_exhausted⟩

/-- A step ends in one way only. -/
theorem Ends.unique {st' : Step} (h : Ends step st) (h' : Ends step st') (hsteady : Steady step) :
    st = st' := by
  obtain ⟨enough, hst⟩ := h.eventually hsteady
  obtain ⟨enough', hst'⟩ := h'.eventually hsteady
  rw [← hst (max enough enough') (Nat.le_max_left _ _),
    ← hst' (max enough enough') (Nat.le_max_right _ _)]

/-- What holds of two steps from some number of turns on holds of what they end with. -/
theorem diverge_or_end {R : Step → Step → Prop} (hsteady : Steady step) (hsteady' : Steady step')
    (enough : Nat)
    (h : ∀ maxTurns, enough ≤ maxTurns →
      ((step maxTurns).result = .exhausted ∧ (step' maxTurns).result = .exhausted) ∨
      ((step maxTurns).result.IsFinal ∧ (step' maxTurns).result.IsFinal ∧
        R (step maxTurns) (step' maxTurns))) :
    (Diverges step ∧ Diverges step') ∨
      ∃ st st', Ends step st ∧ Ends step' st' ∧ R st st' := by
  by_cases hend : ∃ maxTurns, enough ≤ maxTurns ∧ (step maxTurns).result ≠ .exhausted
  · obtain ⟨maxTurns, hle, hne⟩ := hend
    rcases h maxTurns hle with ⟨hex, -⟩ | ⟨hfinal, hfinal', hR⟩
    · exact absurd hex hne
    · exact .inr ⟨_, _, ends_of_isFinal hfinal, ends_of_isFinal hfinal', hR⟩
  · have hboth : ∀ maxTurns, enough ≤ maxTurns →
        (step maxTurns).result = .exhausted ∧ (step' maxTurns).result = .exhausted := by
      intro maxTurns hle
      rcases h maxTurns hle with hex | ⟨hfinal, -, -⟩
      · exact hex
      · exact absurd ⟨maxTurns, hle, hfinal.ne_exhausted⟩ hend
    -- a step that is not cut off with few turns would not be with more
    have hall : ∀ {step : Nat → Step}, Steady step →
        (∀ maxTurns, enough ≤ maxTurns → (step maxTurns).result = .exhausted) → Diverges step := by
      intro step hsteady hex maxTurns
      by_contra hne
      have heq := hsteady maxTurns (max enough maxTurns) (Nat.le_max_right _ _) hne
      rw [← heq] at hne
      exact hne (hex _ (Nat.le_max_left _ _))
    exact .inl ⟨hall hsteady fun maxTurns hle => (hboth maxTurns hle).1,
      hall hsteady' fun maxTurns hle => (hboth maxTurns hle).2⟩

end

/-! ## Steps of sessions -/

theorem steady_run (s : Session) (traced : Bool) (p : Program) : Steady (s.run · traced p) := by
  intro maxTurns maxTurns' hle hne
  have hrun : Eval.program (s.limits maxTurns traced) globals p ⟨s.heap, "", []⟩ ≠ .exhausted := by
    intro hex
    have hstep : s.run maxTurns traced p = s.conclude .exhausted := congrArg s.conclude hex
    exact hne (congrArg Step.result hstep)
  exact congrArg s.conclude (Eval.program_of_le hle hrun)

theorem steady_evaluate (s : Session) (source : List Glyph) : Steady (s.evaluate · source) := by
  intro maxTurns maxTurns' hle hne
  unfold Session.evaluate at hne ⊢
  cases hp : Program.ofGlyphs source .finished with
  | ok p =>
      simp only [hp] at hne
      exact steady_run s false p maxTurns maxTurns' hle hne
  | error f => rfl

theorem Ready.isFinal_or_exhausted {s : Session} (hs : s.Ready) (maxTurns : Nat) (traced : Bool)
    (p : Program) :
    (s.run maxTurns traced p).result.IsFinal ∨ (s.run maxTurns traced p).result = .exhausted := by
  have hmisuse := (hs.run maxTurns traced p).2
  cases hr : (s.run maxTurns traced p).result with
  | value v => exact .inl trivial
  | fault f => exact .inl trivial
  | misuse m => exact absurd hr (hmisuse m)
  | exhausted => exact .inr rfl

/-- The sessions that are come to by running sources, one after the other. -/
inductive Reachable : Session → Prop
  | start (settings : Settings) : Reachable (start settings)
  | step {s : Session} {source : List Glyph} {st : Step} :
      Reachable s → Ends (s.evaluate · source) st → Reachable st.session

theorem Reachable.ready {s : Session} (h : s.Reachable) : s.Ready := by
  induction h with
  | start settings => exact ready_start settings
  | step _ hend ih =>
      obtain ⟨maxTurns, rfl, -⟩ := hend
      exact (ih.evaluate maxTurns _).1

/-! ## Steps that are alike -/

theorem alike_initialHeap (L : Likeness) : initialHeap.Alike L initialHeap := by
  have hbind : ∀ (bs : List Builtin) (h : Heap), h.Alike L h →
      (bs.foldl (fun h b => h.define globals b.name (some (.builtin b))) h).Alike L
        (bs.foldl (fun h b => h.define globals b.name (some (.builtin b))) h) := by
    intro bs
    induction bs with
    | nil => exact fun h hh => hh
    | cons b bs ih => exact fun h hh => ih _ (hh.define globals b.name (.some (.builtin b)))
  exact hbind Builtin.all _ ((Heap.alike_empty L).newScope none)

/-- Sessions and programs that are alike make steps that are alike. -/
theorem alike_run {L : Likeness} {s s' : Session}
    (hdepth : s.settings.maxDepth = s'.settings.maxDepth) (hh : s.heap.Alike L s'.heap)
    {p p' : Program} (hp : Stmt.AllAlike L false p p') (maxTurns : Nat) (traced : Bool) :
    (s.run maxTurns traced p).Alike L (s'.run maxTurns traced p') := by
  have hlimits : s'.limits maxTurns traced = s.limits maxTurns traced := by
    rw [limits, limits, hdepth]
  have h := Eval.agree_answer (s.limits maxTurns traced) globals p hp ⟨s.heap, "", []⟩
    ⟨s'.heap, "", []⟩ hh
  unfold Session.run Eval.program
  rw [hlimits, Eval.programFrom_eq, Eval.programFrom_eq]
  generalize Eval.answer (s.limits maxTurns traced) globals p ⟨s.heap, "", []⟩ = o,
    Eval.answer (s.limits maxTurns traced) globals p' ⟨s'.heap, "", []⟩ = o' at h
  cases h with
  | value hv hsince =>
      obtain ⟨text, ht, ht'⟩ := hsince.output
      obtain ⟨notes, hn, hn'⟩ := hsince.calls
      refine ⟨?_, ht.trans ht'.symm, congrArg List.reverse (hn.trans hn'.symm), hsince.heap⟩
      cases hv with
      | none => exact .value .unit
      | some hv => exact .value hv
  | fault hf hsince =>
      obtain ⟨text, ht, ht'⟩ := hsince.output
      obtain ⟨notes, hn, hn'⟩ := hsince.calls
      exact ⟨.fault hf, ht.trans ht'.symm, congrArg List.reverse (hn.trans hn'.symm), hsince.heap⟩
  | misuse m => exact ⟨.misuse m, rfl, rfl, hh⟩
  | exhausted hl => exact ⟨.exhausted hl, rfl, rfl, hh⟩

/-- A likeness that the heap and the source have to themselves is kept by a step, and is what is
known of its fault. -/
theorem alike_evaluate {L : Likeness} {s : Session} (hh : s.heap.Alike L s.heap)
    {source : List Glyph}
    (hp : ∀ p, Program.ofGlyphs source .finished = .ok p → Stmt.AllAlike L false p p)
    (maxTurns : Nat) :
    (s.evaluate maxTurns source).session.heap.Alike L (s.evaluate maxTurns source).session.heap ∧
    ∀ f, (s.evaluate maxTurns source).result = .fault (.runtime f) → f.Alike L f := by
  unfold evaluate
  cases hparse : Program.ofGlyphs source .finished with
  | error e =>
      refine ⟨hh, ?_⟩
      intro f hf
      cases hf
  | ok p =>
      have hrun := alike_run rfl hh (hp p hparse) maxTurns false
      refine ⟨hrun.heap, ?_⟩
      intro f hf
      have hresult := hrun.result
      rw [hf] at hresult
      cases hresult with
      | fault hf => exact hf

/-! ## Without loops -/

/-- **Without loops every step ends.**  The step of a program without a `while`, in a session that
has just been started, is the same for every number of turns: it ends with a value or a fault.
Calls are bounded by their limit, and a search for a name is bounded by its scope: at whatever stage
the run may be, to look at more scopes than that is to find the same. -/
theorem run_ends_of_whileFree (settings : Settings) (traced : Bool) {p : Program}
    (hp : Stmt.allWhileFree p = true) :
    (∃ st : Step, st.result.IsFinal ∧
      ∀ maxTurns, (start settings).run maxTurns traced p = st) ∧
    ∀ maxTurns b,
      Eval.Reaches ((start settings).limits maxTurns traced) ((start settings).firstStage p) b →
      ∀ i m steps, i < steps → b.world.heap.resolveFrom m steps i = b.world.heap.resolve? i m := by
  constructor
  · -- the run is alike to itself for a likeness that has no loops
    let L : Likeness := ⟨fun _ _ => True, fun _ _ => True, fun _ => True, False⟩
    have hself : Stmt.AllAlike L false p p :=
      Stmt.allAlike_self (fun _ => trivial) false (fun _ _ => ⟨trivial, trivial⟩) (.inr hp)
    have hne : ∀ maxTurns, ((start settings).run maxTurns traced p).result ≠ .exhausted := by
      intro maxTurns hex
      have halike := (alike_run (s := start settings) rfl (alike_initialHeap L) hself maxTurns
        traced).result
      rw [hex] at halike
      cases halike with
      | exhausted hl => exact hl
    refine ⟨(start settings).run 0 traced p, ?_, ?_⟩
    · exact ((ready_start settings).isFinal_or_exhausted 0 traced p).resolve_right (hne 0)
    · intro maxTurns
      exact steady_run _ traced p 0 maxTurns (Nat.zero_le maxTurns) (hne 0)
  · intro maxTurns b hb i m steps hi
    obtain ⟨-, hfits⟩ := Eval.Reaches.fits hb ((ready_start settings).fits p)
    exact hfits.wellFormed.resolveFrom_eq m hi

/-- A statement that calls a function by its name. -/
def callStmt (name : String) (args : List Expr) : Stmt :=
  .expr (.call (.var ⟨name, default⟩) args default) default

/-- A function that calls itself, and a call of it. -/
def endless : Program :=
  [.fnDecl ⟨"f", default⟩ [] [callStmt "println" [.string "in" default], callStmt "f" []] default,
    callStmt "f" []]

theorem run_ends_endless :
    Stmt.allWhileFree endless = true ∧
    ((∃ st : Step, st.result.IsFinal ∧
      ∀ maxTurns, (start ⟨"endless.ham", 1000⟩).run maxTurns true endless = st) ∧
    ∀ maxTurns b,
      Eval.Reaches ((start ⟨"endless.ham", 1000⟩).limits maxTurns true)
        ((start ⟨"endless.ham", 1000⟩).firstStage endless) b →
      ∀ i m steps, i < steps →
        b.world.heap.resolveFrom m steps i = b.world.heap.resolve? i m) :=
  ⟨rfl, run_ends_of_whileFree ⟨"endless.ham", 1000⟩ true rfl⟩

/-! ## A higher limit on calls -/

/-- The session with another limit on calls. -/
def withDepth (s : Session) (depth : Nat) : Session :=
  { s with settings := { s.settings with maxDepth := depth } }

/-- Under a higher limit on calls a step is the same, or it has been cut off, and if by the limit on
calls, then what it has printed is printed again. -/
theorem run_withDepth_cases (s : Session) (maxTurns : Nat) (traced : Bool) (p : Program)
    {depth depth' : Nat} (hdepth : depth ≤ depth') :
    let st := (s.withDepth depth).run maxTurns traced p
    let st' := (s.withDepth depth').run maxTurns traced p
    st' = { st with session := st.session.withDepth depth' } ∨
    st.result = .exhausted ∨
    (st.result.class? = some .stackOverflow ∧
      (st'.result.IsFinal → ∃ more, st'.output = st.output ++ more)) := by
  obtain ⟨more, rfl⟩ := Nat.exists_eq_add_of_le hdepth
  have hbelow : Outcome.Below (·.faultClass = .stackOverflow) ⟨s.heap, "", []⟩
      (Eval.program ⟨depth, maxTurns, traced⟩ globals p ⟨s.heap, "", []⟩)
      (Eval.program ⟨depth + more, maxTurns, traced⟩ globals p ⟨s.heap, "", []⟩) :=
    Eval.below_program (.inr fun _ _ => rfl) (Nat.le_refl maxTurns) globals p _
  intro st st'
  have hst : st = (s.withDepth depth).conclude
    (Eval.program ⟨depth, maxTurns, traced⟩ globals p ⟨s.heap, "", []⟩) := rfl
  have hst' : st' = (s.withDepth (depth + more)).conclude
    (Eval.program ⟨depth + more, maxTurns, traced⟩ globals p ⟨s.heap, "", []⟩) := rfl
  rw [hst, hst']
  generalize Eval.program ⟨depth, maxTurns, traced⟩ globals p ⟨s.heap, "", []⟩ = o,
    Eval.program ⟨depth + more, maxTurns, traced⟩ globals p ⟨s.heap, "", []⟩ = o' at hbelow
  cases hbelow with
  | same _ => exact .inl (by cases o <;> rfl)
  | exhausted _ => exact .inr (.inl rfl)
  | cut hcut _ hmore =>
      refine .inr (.inr ⟨congrArg some hcut, fun hfinal => ?_⟩)
      cases o' with
      | value v w => exact hmore
      | fault f w => exact hmore
      | misuse m => exact hfinal.elim
      | exhausted => exact hfinal.elim

/-- **A higher limit on calls.**  A step that ends otherwise than by going over the limit on calls
ends in the same way, with the same output and the same heap, if the limit is higher.  One that goes
over the limit has not printed more than it prints with a higher limit, if it ends then. -/
theorem run_of_le_depth (s : Session) (traced : Bool) (p : Program) {depth depth' : Nat}
    (hdepth : depth ≤ depth') :
    (∀ st, Ends ((s.withDepth depth).run · traced p) st →
      st.result.class? ≠ some .stackOverflow →
      Ends ((s.withDepth depth').run · traced p)
        { st with session := st.session.withDepth depth' }) ∧
    ∀ st st', Ends ((s.withDepth depth).run · traced p) st →
      st.result.class? = some .stackOverflow →
      Ends ((s.withDepth depth').run · traced p) st' →
      ∃ more, st'.output = st.output ++ more := by
  constructor
  · rintro st ⟨maxTurns, rfl, hfinal⟩ hover
    refine ⟨maxTurns, ?_, hfinal⟩
    rcases run_withDepth_cases s maxTurns traced p hdepth with heq | hex | ⟨hcut, -⟩
    · exact heq
    · exact absurd hex hfinal.ne_exhausted
    · exact absurd hcut hover
  · intro st st' hend hover hend'
    -- both steps at a number of turns that is enough for both
    obtain ⟨enough, hst⟩ := hend.eventually (steady_run _ traced p)
    obtain ⟨enough', hst'⟩ := hend'.eventually (steady_run _ traced p)
    obtain rfl := hst (max enough enough') (Nat.le_max_left _ _)
    obtain rfl := hst' (max enough enough') (Nat.le_max_right _ _)
    rcases run_withDepth_cases s (max enough enough') traced p hdepth with heq | hex | ⟨-, hmore⟩
    · exact ⟨"", by rw [heq, String.append_empty]⟩
    · exact absurd hex hend.isFinal.ne_exhausted
    · exact hmore hend'.isFinal

/-- A function that calls another one, and a call of it. -/
def nested : Program :=
  [.fnDecl ⟨"f", default⟩ [] [callStmt "println" [.string "in" default], callStmt "g" []] default,
    .fnDecl ⟨"g", default⟩ [] [callStmt "println" [.string "deep" default]] default,
    callStmt "f" []]

/-- The inner call is one too many for a limit of one, and not for higher ones. -/
theorem run_of_le_depth_nested :
    ∃ st st', Ends (((start ⟨"nested.ham", 1⟩).withDepth 1).run · false nested) st ∧
      st.result.class? = some .stackOverflow ∧ st.output = "in\n" ∧
      Ends (((start ⟨"nested.ham", 1⟩).withDepth 2).run · false nested) st' ∧
      (∃ more, st'.output = st.output ++ more) ∧
      Ends (((start ⟨"nested.ham", 1⟩).withDepth 3).run · false nested)
        { st' with session := st'.session.withDepth 3 } := by
  have hlow : Ends (((start ⟨"nested.ham", 1⟩).withDepth 1).run · false nested)
      (((start ⟨"nested.ham", 1⟩).withDepth 1).run 0 false nested) :=
    ends_of_isFinal trivial
  have hhigh : Ends (((start ⟨"nested.ham", 1⟩).withDepth 2).run · false nested)
      (((start ⟨"nested.ham", 1⟩).withDepth 2).run 0 false nested) :=
    ends_of_isFinal trivial
  have hover : (((start ⟨"nested.ham", 1⟩).withDepth 1).run 0 false nested).result.class? =
      some .stackOverflow := rfl
  have hnone : (((start ⟨"nested.ham", 1⟩).withDepth 2).run 0 false nested).result.class? = none :=
    rfl
  exact ⟨_, _, hlow, hover, rfl, hhigh,
    (run_of_le_depth _ false nested (by decide)).2 _ _ hlow hover hhigh,
    (run_of_le_depth _ false nested (by decide)).1 _ hhigh (hnone ▸ nofun)⟩

end Session

end HamScript
