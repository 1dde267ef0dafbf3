/-
# Parsing line by line

A source that parses can be followed by a line feed and another source.  Its statements come first
and then those of the second source, moved; and if the second source has a fault, so has the
whole, at the place that it has moved to.

Two facts meet here.  The rules for statements look at the token after them, but only on the same
line, so on the next line anything may follow.  And parsing does not depend on positions but for
line breaks, so it gives for moved tokens the moved tree or the moved fault.
-/
import HamScript.Proofs.Syntax.Alike
import HamScript.Proofs.Syntax.Realises
import HamScript.Proofs.Token.Lines

namespace HamScript

open Grammar Parsing
open Source (Glyph Position)

/-! ## What may follow a program -/

namespace Grammar

theorem exists_endOf {ts : List Token} (h : ts ≠ []) : ∃ t ∈ ts, endOf ts = t.span.last := by
  refine ⟨ts.getLast h, List.getLast_mem h, ?_⟩
  rw [← endOf_singleton, ← endOf_append ts.dropLast (List.cons_ne_nil (ts.getLast h) []),
    List.dropLast_concat_getLast]

theorem adjoins_append (ts : List Token) {us : List Token} (h : us ≠ []) {t : Token} :
    Adjoins (ts ++ us) t ↔ Adjoins us t := by
  rw [Adjoins, endOf_append ts h, Adjoins]

/-- On the next line, anything may follow a statement. -/
theorem Derives.stmt_before {s : Stmt} {next : Token} {ts : List Token}
    (h : Derives (.stmt s next) ts) {next' : Token} (hnext : ¬ Adjoins ts next') :
    Derives (.stmt s next') ts := by
  cases h with
  | @letIn k t o _ x e ts hk hx ho he _ =>
      have hlast := mt (adjoins_append [k, t, o] he.expr_ne_nil).mpr hnext
      exact .letIn hk hx ho he fun _ => hlast
  | fnDecl _ hk hx hxs hb => exact .fnDecl next' hk hx hxs hb
  | ifThen _ hk he hb => exact .ifThen next' hk he hb
  | whileDo _ hk he hb => exact .whileDo next' hk he hb
  | returnUnit hk _ => exact .returnUnit hk fun hvalue => hnext hvalue.1
  | @returnValue k _ e ts hk hvalue he _ =>
      have hlast := mt (adjoins_append [k] he.expr_ne_nil).mpr hnext
      obtain ⟨t, ts, rfl⟩ := List.exists_cons_of_ne_nil he.expr_ne_nil
      exact .returnValue hk hvalue he fun _ => hlast
  | breakOut _ hk => exact .breakOut next' hk
  | expr he _ => exact .expr he fun _ => hnext

/-- On the next line, anything may follow statements. -/
theorem Derives.stmts_before {φ : Phrase} {ts : List Token} (h : Derives φ ts) {P : Program}
    {next : Token} (hφ : φ = .stmts P next) {next' : Token}
    (hnext : ts ≠ [] → ¬ Adjoins ts next') : Derives (.stmts P next') ts := by
  induction h generalizing P with
  | noStmts =>
      obtain ⟨rfl, rfl⟩ := Phrase.stmts.inj hφ
      exact .noStmts next'
  | @moreStmts s b ts us _ hs _ _ ihb =>
      obtain ⟨rfl, rfl⟩ := Phrase.stmts.inj hφ
      have hne : ts ≠ [] := hs.ne_nil fun _ _ => Phrase.noConfusion
      cases us with
      | nil =>
          rw [List.append_nil] at hnext
          exact .moreStmts (hs.stmt_before (hnext hne)) (ihb rfl fun hnil => absurd rfl hnil)
      | cons u us =>
          refine .moreStmts hs (ihb rfl fun hus => ?_)
          exact mt (adjoins_append ts hus).mpr (hnext (List.append_ne_nil_of_left_ne_nil hne _))
  | _ => exact nomatch hφ

end Grammar

/-! ## Where a program begins -/

namespace Parser

/-- The parser does not ask where the token before its first one ends. -/
def Forgets {α : Type} (p : Parser α) : Prop :=
  ∀ t ts stop last last', p ⟨t :: ts, stop, last⟩ = p ⟨t :: ts, stop, last'⟩

section
variable {α β : Type}

theorem forgets_next : Forgets next :=
  fun _ _ _ _ _ => rfl

theorem Forgets.bind {p : Parser β} (h : Forgets p) (f : β → Parser α) : Forgets (p >>= f) := by
  intro t ts stop last last'
  change Parser.bind p f _ = Parser.bind p f _
  unfold Parser.bind
  rw [h t ts stop last last']

theorem forgets_peek {f : Token → Parser α} (h : ∀ t, Forgets (f t)) : Forgets (peek >>= f) :=
  fun t ts stop last last' => h t t ts stop last last'

theorem forgets_expr (n k : Nat) : Forgets (expr n k) := by
  cases n with
  | zero => exact fun _ _ _ _ _ => rfl
  | succ n =>
      rw [expr]
      exact (forgets_next.bind _).bind _

theorem forgets_stmtOf (n : Nat) : Forgets (stmtOf (expr n) (block n) n) := by
  refine forgets_peek fun tok => ?_
  dsimp only
  split
  next => exact forgets_next.bind _
  next => exact forgets_next.bind _
  next => exact forgets_next.bind _
  next => exact forgets_next.bind _
  next => exact forgets_next.bind _
  next => exact forgets_next.bind _
  next => exact (forgets_expr n loosest).bind _

theorem program_forgets {t : Token} (ht : t.kind ≠ .eof) (n : Nat) (ts : List Token)
    (stop : Except ScanFault Position) (last last' : Position) :
    program n ⟨t :: ts, stop, last⟩ = program n ⟨t :: ts, stop, last'⟩ := by
  cases n with
  | zero => rfl
  | succ n =>
      have hstmts : ∀ last, Steps (program (n + 1)) ⟨t :: ts, stop, last⟩ (do
          let s ← stmtOf (expr (n + 1)) (block (n + 1)) (n + 1)
          let rest ← stmtsToEnd (stmtOf (expr (n + 1)) (block (n + 1)) (n + 1)) n
          return s :: rest) ⟨t :: ts, stop, last⟩ := by
        intro last
        refine Steps.next (b := t) rfl ?_
        rw [if_neg ht]
        rfl
      refine (hstmts last).trans ?_
      exact ((forgets_stmtOf (n + 1)).bind _ t ts stop last last').trans (hstmts last').symm

end

theorem program_bound {s : Input} {n m : Nat} (hn : s.size < n) (hm : s.size < m) :
    program n s = program m s := by
  refine eq_of_growing (fun h => ?_) (settles_program s hn).ne_exhausted
    (settles_program s hm).ne_exhausted
  exact below_stmtsToEnd (below_stmtOf (below_knot h).1 (below_knot h).2 h) h

/-! ## Moved tokens -/

/-- Tokens are alike to themselves, moved by what keeps lines apart. -/
theorem alike_relocate {f : Position → Position}
    (hf : ∀ p q, p.line = q.line ↔ (f p).line = (f q).line) (escape : ScanFault → Prop)
    (ts : List Token) (stop : Except ScanFault Position) (last : Position) :
    Alike f id escape ⟨ts, stop, last⟩
      ⟨ts.map (Token.relocate f), Scan.relocateStop f stop, f last⟩ := by
  induction ts generalizing last with
  | nil =>
      cases stop with
      | ok p => exact .ended rfl rfl (hf p last)
      | error e => exact .faulted rfl (e.relocate f).relocate_id.symm
  | cons t ts ih => exact .token rfl rfl (hf t.span.first last) (ih t.span.last)

/-- Tokens that end properly are alike to the same tokens before a fault. -/
theorem alike_fault (e : ScanFault) (ts : List Token) (p last : Position) :
    Alike id id (· = e) ⟨ts, .ok p, last⟩ ⟨ts, .error e, last⟩ := by
  induction ts generalizing last with
  | nil => exact .escaped rfl rfl
  | cons t ts ih => exact .token rfl rfl Iff.rfl (ih t.span.last)

/-- A program before a fault of scanning: the fault is met. -/
theorem program_before_fault {n : Nat} {ts : List Token} {p last : Position} {P : Program}
    {s' : Input} (hts : ∀ t ∈ ts, t.kind ≠ .eof) (h : program n ⟨ts, .ok p, last⟩ = .done P s')
    (e : ScanFault) : program n ⟨ts, .error e, last⟩ = .fault (.scan e) := by
  have hagree := agree_program n _ _ (alike_fault e ts p last)
  rw [h] at hagree
  generalize hr : program n ⟨ts, .error e, last⟩ = r at hagree
  cases hagree with
  | done hP hs =>
      obtain ⟨q, hq, -⟩ := derives_of_program hts hr
      exact nomatch hq
  | escaped _ he => rw [he]

/-- How the answers of reading two programs, one alone and one after the program `A`, go together:
the statements of the first are moved by `f` and come after `A`, and its fault is moved. -/
inductive Follows (A : Program) (f : Position → Position) : Reply Program → Reply Program → Prop
  | done (B : Program) (s s' : Input) : Follows A f (.done B s) (.done (A ++ B.relocate f) s')
  | fault (e : SyntaxFault) : Follows A f (.fault e) (.fault (e.relocate f))
  | exhausted (r : Reply Program) : Follows A f .exhausted r

theorem Follows.of_done {A B : Program} {f : Position → Position} {r r' : Reply Program} {s : Input}
    (h : Follows A f r r') (hr : r = .done B s) : ∃ s', r' = .done (A ++ B.relocate f) s' := by
  cases h with
  | done B' s₁ s' =>
      obtain ⟨rfl, -⟩ := Reply.done.inj hr
      exact ⟨s', rfl⟩
  | fault | exhausted => exact nomatch hr

theorem Follows.of_fault {A : Program} {f : Position → Position} {r r' : Reply Program}
    {e : SyntaxFault} (h : Follows A f r r') (hr : r = .fault e) : r' = .fault (e.relocate f) := by
  cases h with
  | fault e' =>
      obtain rfl := Reply.fault.inj hr
      rfl
  | done | exhausted => exact nomatch hr

section
variable {n : Nat} {ts us : List Token} {A : Program} {p last last' : Position}
  {stop : Except ScanFault Position} {f : Position → Position}

/-- Behind a program, nothing but the end of the tokens. -/
theorem follows_of_nil (hts : ∀ t ∈ ts, t.kind ≠ .eof) (hA : Derives (.stmts A (.endAt p)) ts)
    (hn : ts.length < n) (hnext : ∀ q, stop = .ok q → ts ≠ [] → ¬ Adjoins ts (.endAt (f q))) :
    Follows A f (program n ⟨[], stop, last'⟩) (program n ⟨ts, Scan.relocateStop f stop, last⟩) := by
  obtain ⟨n, rfl⟩ := Nat.exists_eq_succ_of_ne_zero (Nat.ne_of_gt (Nat.zero_lt_of_lt hn))
  cases stop with
  | ok q =>
      have hread : ∃ s', program (n + 1) ⟨ts, .ok (f q), last⟩ = .done A s' :=
        program_of_derives (hA.stmts_before rfl (hnext q rfl)) hn
      obtain ⟨s', hs'⟩ := hread
      have hdone : Follows A f (.done [] ⟨[], .ok q, last'⟩) (.done (A ++ []) s') := .done [] _ s'
      rw [List.append_nil, ← hs'] at hdone
      exact hdone
  | error e =>
      have hread : ∃ s', program (n + 1) ⟨ts, .ok p, last⟩ = .done A s' := program_of_derives hA hn
      obtain ⟨s', hs'⟩ := hread
      rw [Scan.relocateStop, program_before_fault hts hs']
      exact .fault (.scan e)

/-- Behind a program, moved tokens. -/
theorem follows_of_cons {u : Token} (hu : u.kind ≠ .eof) (hf : Function.Surjective f)
    (hline : ∀ p q, p.line = q.line ↔ (f p).line = (f q).line)
    (hA : Derives (.stmts A (.endAt p)) ts) (hn : (ts ++ u :: us).length < n)
    (hnext : ts ≠ [] → ¬ Adjoins ts (u.relocate f)) :
    Follows A f (program n ⟨u :: us, stop, last'⟩)
      (program n ⟨ts ++ (u :: us).map (Token.relocate f), Scan.relocateStop f stop, last⟩) := by
  obtain ⟨L, hL⟩ := hf (endFrom last ts)
  have hagree := agree_program n _ _ (alike_relocate hline (fun _ => False) (u :: us) stop L)
  rw [hL, program_forgets hu n us stop L last'] at hagree
  have hn' : (ts ++ (u :: us).map (Token.relocate f)).length < n := by
    rwa [List.length_append, List.length_map, ← List.length_append]
  have hsteps := steps_program (hA.stmts_before rfl hnext) _ (Scan.relocateStop f stop) last hn' rfl
  change program n _ = Parser.bind (program n) _ _ at hsteps
  rw [hsteps, Parser.bind]
  generalize program n ⟨u :: us, stop, last'⟩ = r at hagree ⊢
  generalize program n ⟨(u :: us).map _, _, _⟩ = r' at hagree ⊢
  cases hagree with
  | @done B B' s s' hB _ =>
      have hB' : B.relocate f = B' := hB.trans (Stmt.relocateAll_id B')
      rw [← hB']
      exact .done B s s'
  | @fault e e' he =>
      have he' : e.relocate f = e' := he.trans e'.relocate_id
      rw [← he']
      exact .fault e
  | exhausted => exact .exhausted _
  | escaped _ h => exact h.elim

end

end Parser

/-! ## The theorem -/

theorem Lexes.endOf_line {ending : Ending} {p : Position} {gs : List Glyph} {ts : List Token}
    {stop : Except ScanFault Position} (h : Lexes ending p gs ts stop) (hne : ts ≠ []) :
    (endOf ts).line ≤ p.line + Glyph.countFeeds gs := by
  obtain ⟨t, ht, hend⟩ := exists_endOf hne
  rw [hend]
  exact (h.line_bounds ht).2

/-- What is moved below a source does not adjoin its tokens. -/
theorem Lexes.not_adjoins_moveBy {ending : Ending} {gs : List Glyph} {ts : List Token}
    {stop : Except ScanFault Position} (h : Lexes ending .start gs ts stop) (hne : ts ≠ [])
    (bytes : Nat) {t : Token} (ht : 1 ≤ t.span.first.line) :
    ¬ Adjoins ts (t.relocate (Position.moveBy bytes (1 + Glyph.countFeeds gs))) := by
  have hend : (endOf ts).line ≤ 1 + Glyph.countFeeds gs := h.endOf_line hne
  intro hline
  have hmoved : t.span.first.line + (1 + Glyph.countFeeds gs : Nat) = (endOf ts).line := hline
  omega

theorem Source.Position.moveBy_surjective (bytes lines : Nat) :
    Function.Surjective (moveBy bytes lines) := by
  intro q
  refine ⟨⟨q.offset - bytes, q.line - lines, q.column⟩, ?_⟩
  simp only [moveBy, Int.sub_add_cancel]

theorem Source.Position.moveBy_line_iff (bytes lines : Nat) (p q : Position) :
    p.line = q.line ↔ (p.moveBy bytes lines).line = (q.moveBy bytes lines).line := by
  simp only [moveBy]
  omega

/-- A source that is parsed, a line feed, and another source. -/
theorem Parser.follows_append_feed {as : List Glyph} {ts : List Token} {p : Position} {A : Program}
    (hscan : Scan.ofGlyphs as .finished = ⟨ts, .ok p⟩) (hA : Derives (.stmts A (.endAt p)) ts)
    (bs : List Glyph) (ending : Ending) :
    let move := Position.moveBy (Glyph.byteCount as + 1) (1 + Glyph.countFeeds as)
    let s := Scan.ofGlyphs bs ending
    let s' := Scan.ofGlyphs (as ++ Glyph.feed :: bs) ending
    Follows A move (program s.bound s.input) (program s'.bound s'.input) := by
  intro move s s'
  have has : Lexes .finished .start as ts (.ok p) := lexes_iff.mpr hscan
  have hbs : Lexes ending .start bs s.tokens s.stop := lexes_iff.mpr rfl
  have hs' : s' = ⟨ts ++ s.tokens.map (Token.relocate move), Scan.relocateStop move s.stop⟩ :=
    Scan.ofGlyphs_append_feed hscan bs ending
  have hts : ∀ t ∈ ts, t.kind ≠ .eof := fun t ht => has.kind_ne_eof ht
  have hbound : s.tokens.length < s'.bound := by
    rw [hs', Scan.bound, List.length_append, List.length_map]
    omega
  have hsame : program s.bound s.input = program s'.bound s.input :=
    program_bound (Nat.lt_succ_self _) hbound
  rw [hsame, hs']
  clear_value s
  obtain ⟨us, stop⟩ := s
  cases us with
  | nil =>
      have hnext : ∀ q, stop = .ok q → ts ≠ [] → ¬ Adjoins ts (.endAt (move q)) := by
        intro q hq hne
        have hline : 1 ≤ q.line := by
          rw [hbs.stop_eq hq, Position.line_afterAll]
          exact Int.le_add_of_nonneg_right (Int.natCast_nonneg _)
        exact has.not_adjoins_moveBy hne _ (t := .endAt q) hline
      simp only [Scan.input, Scan.bound, List.map_nil, List.append_nil]
      exact follows_of_nil hts hA (Nat.lt_succ_self _) hnext
  | cons u us =>
      have hu : u ∈ u :: us := List.mem_cons_self
      have hn : (ts ++ u :: us).length <
          (ts ++ (u :: us).map (Token.relocate move)).length + 1 := by
        rw [List.length_append, List.length_append, List.length_map]
        omega
      exact follows_of_cons (hbs.kind_ne_eof hu) (Position.moveBy_surjective _ _)
        (Position.moveBy_line_iff _ _) hA hn
        fun hne => has.not_adjoins_moveBy hne _ (hbs.line_bounds hu).1

/-- Parsing is compositional over lines: a source that parses, a line feed and another source
parse to the statements of the first followed by those of the second, each position in these moved
by the bytes and lines before it.  Where the second source has a fault, so has the whole: the
same, moved. -/
theorem parse_append_feed (a b : List UInt8) {A : Program}
    (hA : Program.ofGlyphs (Glyph.ofBytes a) .finished = .ok A) :
    let move := Position.moveBy (a.length + 1) (1 + a.count 10)
    (∀ B, Program.ofGlyphs (Glyph.ofBytes b) .finished = .ok B →
      Program.ofGlyphs (Glyph.ofBytes (a ++ 10 :: b)) .finished = .ok (A ++ B.relocate move)) ∧
    (∀ e, Program.ofGlyphs (Glyph.ofBytes b) .finished = .error e →
      Program.ofGlyphs (Glyph.ofBytes (a ++ 10 :: b)) .finished = .error (e.relocate move)) := by
  intro move
  obtain ⟨ts, p, hscan, hderives⟩ := Program.exists_derives hA
  have hfollows := Parser.follows_append_feed hscan hderives (Glyph.ofBytes b) .finished
  simp only [Glyph.byteCount_ofBytes, Glyph.countFeeds_ofBytes, ← Glyph.ofBytes_append_feed]
    at hfollows
  refine ⟨fun B hB => ?_, fun e he => ?_⟩
  · obtain ⟨s, hs⟩ := Program.ofScan_eq_ok_iff.mp hB
    exact Program.ofScan_eq_ok_iff.mpr (hfollows.of_done hs)
  · exact Program.ofScan_eq_error_iff.mpr (hfollows.of_fault (Program.ofScan_eq_error_iff.mp he))

/-- `return` and, on the next line, `(x)`, which is no value for it, or `(`, which lacks its end. -/
theorem parse_append_feed_return :
    let a : List UInt8 := [114, 101, 116, 117, 114, 110]
    let b : List UInt8 := [40, 120, 41]
    let move := Position.moveBy 7 1
    ∃ A B, A.length = 1 ∧ B.length = 1 ∧
      Program.ofGlyphs (Glyph.ofBytes a) .finished = .ok A ∧
      Program.ofGlyphs (Glyph.ofBytes b) .finished = .ok B ∧
      Program.ofGlyphs (Glyph.ofBytes (a ++ 10 :: b)) .finished = .ok (A ++ B.relocate move) ∧
      Program.ofGlyphs (Glyph.ofBytes [40]) .finished =
        .error (.expectedExpression (.endAt ⟨1, 1, 2⟩)) ∧
      Program.ofGlyphs (Glyph.ofBytes (a ++ 10 :: [40])) .finished =
        .error (.expectedExpression (.endAt ⟨8, 2, 2⟩)) := by
  intro a b move
  have hA : ∃ A, A.length = 1 ∧ Program.ofGlyphs (Glyph.ofBytes a) .finished = .ok A :=
    exists_ok_of_length (by decide +kernel)
  have hB : ∃ B, B.length = 1 ∧ Program.ofGlyphs (Glyph.ofBytes b) .finished = .ok B :=
    exists_ok_of_length (by decide +kernel)
  have hfault : Program.ofGlyphs (Glyph.ofBytes [40]) .finished =
      .error (.expectedExpression (.endAt ⟨1, 1, 2⟩)) := eq_error_of_swap (by decide +kernel)
  obtain ⟨A, hlengthA, hA⟩ := hA
  obtain ⟨B, hlengthB, hB⟩ := hB
  exact ⟨A, B, hlengthA, hlengthB, hA, hB, (parse_append_feed a b hA).1 B hB, hfault,
    (parse_append_feed a [40] hA).2 _ hfault⟩

end HamScript
