/-
# The front end is total

A source is read in two layers.  The lexer goes through the characters with a small memory of those
that it may take back; the parser asks it for tokens, one at a time, and stops at the first thing
that is wrong.  What could go wrong beyond a fault of the source is that a loop does not end, or
that a character is to be taken back which has been forgotten.

* `Lexer.drain` takes all tokens.  It needs no more requests than there are characters, and one.
* `Lexer.Serves` says that a parser and a lexer fit together: looking at a token and taking one are
  what the lexer answers, and nothing is forgotten whatever has been asked before.
* A parser has bounds on its nesting and its loops.  They are not felt if they are higher than the
  number of tokens.

There are two faults that may be met first, one of the tokens and one of their order.  As the parser
asks for one token after the other, the second one wins only if it is about tokens before the first
one (`SyntaxFault.PointsInto`).
-/
import HamScript.Proofs.Syntax.Blame
import HamScript.Proofs.Syntax.Lines
import HamScript.Proofs.Token.Stream

namespace HamScript

open Source (Glyph Position Span)

/-! ## All tokens of a source -/

/-- The fault that a scan ends in. -/
def Scan.fault? (s : Scan) : Option ScanFault :=
  match s.stop with
  | .ok _ => none
  | .error f => some f

/-- Takes tokens until the end of the source or a fault, with at most `n` requests: the tokens, and
the fault. -/
def Lexer.drain : (n : Nat) → Lexer → Option (List Token × Option ScanFault)
  | 0, _ => none
  | n + 1, l =>
    match l.lex with
    | (.error f, _) => some ([], some f)
    | (.ok t, l') =>
      if t.kind = .eof then some ([t], none)
      else (drain n l').map fun (ts, f) => (t :: ts, f)

/-- A lexer that is to give tokens and how they stop gives them one after the other. -/
theorem Lexer.Gives.drain {ts : List Token} {stop : Except ScanFault Position} {l : Lexer}
    (h : Gives l (Token.endless ts stop)) (hts : ∀ t ∈ ts, t.kind ≠ .eof) {n : Nat}
    (hn : ts.length < n) : l.drain n = some (Scan.listed ⟨ts, stop⟩, Scan.fault? ⟨ts, stop⟩) := by
  induction ts generalizing l n with
  | nil =>
      obtain ⟨n, rfl⟩ := Nat.exists_eq_succ_of_ne_zero (Nat.ne_zero_of_lt hn)
      obtain ⟨hfirst, -⟩ := h.lex
      rw [Lexer.drain]
      rcases hlex : l.lex with ⟨answer, l'⟩
      rw [hlex] at hfirst
      obtain rfl : answer = stop.map Token.endAt := hfirst
      cases stop with
      | error f => rfl
      | ok p => rfl
  | cons t ts ih =>
      obtain ⟨ht, hts⟩ := List.forall_mem_cons.mp hts
      obtain ⟨n, rfl⟩ := Nat.exists_eq_succ_of_ne_zero (Nat.ne_zero_of_lt hn)
      obtain ⟨hfirst, hrest⟩ := h.lex
      rw [Lexer.drain]
      rcases hlex : l.lex with ⟨answer, l'⟩
      rw [hlex] at hfirst hrest
      obtain rfl : answer = .ok t := hfirst
      dsimp only
      rw [if_neg ht, ih hrest hts (Nat.lt_of_succ_lt_succ hn)]
      rfl

namespace Lexes

variable {ending : Ending} {p : Position} {gs : List Glyph} {ts : List Token}
  {stop : Except ScanFault Position}

/-- Every token has a character of its own. -/
theorem length_le (h : Lexes ending p gs ts stop) : ts.length ≤ gs.length := by
  induction h with
  | done => exact Nat.zero_le _
  | token _ hlexeme _ ih =>
      have hpos := List.length_pos_of_ne_nil hlexeme.taken_ne_nil
      simp only [List.length_append, List.length_cons]
      omega
  | stray => exact Nat.zero_le _
  | unclosed => exact Nat.zero_le _

/-- Only a supplier that fails is to blame for a source that breaks off. -/
theorem ending_eq_failed {reason : String} (h : Lexes ending p gs ts stop)
    (hstop : stop = .error (.broken reason)) : ending = .failed reason := by
  induction h with
  | done =>
      cases ending with
      | finished => cases hstop
      | failed reason' =>
          cases hstop
          rfl
  | token _ _ _ ih => exact ih hstop
  | stray => cases hstop
  | unclosed => cases hstop

end Lexes

/-- Whether the supplier fails is noticed after the last token only. -/
theorem Scan.ofGlyphs_eq (gs : List Glyph) (ending : Ending) :
    (ofGlyphs gs ending).tokens = (ofGlyphs gs .finished).tokens ∧
    (ofGlyphs gs ending).stop = (ofGlyphs gs .finished).stop >>= stopAt ending := by
  have hscan : ofGlyphs gs ending = ⟨_, _⟩ :=
    ((Scan.lexes gs .finished).of_finished ending).readFrom_eq
  rw [hscan]
  exact ⟨rfl, rfl⟩

theorem Lexer.gives_endless (gs : List Glyph) (ending : Ending) :
    Gives (start gs ending)
      (Token.endless (Scan.ofGlyphs gs ending).tokens (Scan.ofGlyphs gs ending).stop) :=
  .resting (.ready (Source.Buffer.stands_start gs) (Scan.lexes gs ending))

/-! ## The parser and the lexer -/

/-- What a parser answers to an answer of a lexer. -/
def Parsing.Reply.of (answer : Except ScanFault Token) (rest : Token → Input) : Reply Token :=
  match answer with
  | .ok t => .done t (rest t)
  | .error f => .fault (.scan f)

/-- The parser's input is what the lexer has to give, and the lexer can give it: it does not have to
take back a character that it has forgotten. -/
structure Lexer.Serves (l : Lexer) (s : Parsing.Input) : Prop where
  remembers : l.fault = none → (Token.read l.ending l.buffer).isSome
  peek_eq : Parser.peek s = .of l.peek.1 fun _ => s
  next_eq : Parser.next s = .of l.lex.1 fun t => ⟨s.tokens.tail, s.stop, t.span.last⟩

namespace Lexer

variable {l : Lexer} {S : Nat → Except ScanFault Token}

theorem Rests.remembers (h : Rests l S) (hl : l.fault = none) :
    (Token.read l.ending l.buffer).isSome := by
  cases h with
  | ready hb _ =>
      obtain ⟨answer, buffer, hread, -⟩ := Token.meets_read _ hb
      rw [Option.isSome_iff_exists]
      exact ⟨_, hread⟩
  | faulted => cases hl

theorem Gives.remembers (h : Gives l S) (hl : l.fault = none) :
    (Token.read l.ending l.buffer).isSome := by
  cases h with
  | resting h => exact h.remembers hl
  | peeked t h => exact h.remembers hl

theorem Gives.serves {ts : List Token} {stop : Except ScanFault Position}
    (h : Gives l (Token.endless ts stop)) (last : Position) : l.Serves ⟨ts, stop, last⟩ where
  remembers := h.remembers
  peek_eq := by
    rw [h.peek.1]
    cases ts with
    | nil => cases stop <;> rfl
    | cons t ts => rfl
  next_eq := by
    rw [h.lex.1]
    cases ts with
    | nil => cases stop <;> rfl
    | cons t ts => rfl

end Lexer

theorem Token.endless_drop (ts : List Token) (stop : Except ScanFault Position) (k : Nat) :
    (fun j => endless ts stop (k + j)) = endless (ts.drop k) stop := by
  funext j
  rw [endless, endless, List.getElem?_drop]

/-- Whatever a lexer has been asked, it serves a parser that has taken as many tokens. -/
theorem Lexer.serves_askAll (gs : List Glyph) (ending : Ending) (requests : List Request)
    (last : Position) :
    ((start gs ending).askAll requests).Serves
      ⟨(Scan.ofGlyphs gs ending).tokens.drop (requests.count .lex),
        (Scan.ofGlyphs gs ending).stop, last⟩ := by
  have hgives := (gives_endless gs ending).askAll requests
  rw [Token.endless_drop] at hgives
  exact hgives.serves last

/-! ## Which fault is met -/

/-- The fault is one of the order of the tokens, and lies within them. -/
inductive SyntaxFault.PointsInto (ts : List Token) : SyntaxFault → Prop
  | expectedKind {t : Token} (kinds : List Kind) : t ∈ ts → PointsInto ts (.expectedKind kinds t)
  | expectedExpression {t : Token} : t ∈ ts → PointsInto ts (.expectedExpression t)
  | invalidTarget {s : Span} : s.Between (· ∈ ts) → PointsInto ts (.invalidTarget s)

theorem SyntaxFault.About.cases {e : SyntaxFault} {s : Scan} (h : e.About s.stock) :
    (∃ f, e = .scan f ∧ s.stop = .error f) ∨ e.PointsInto s.listed := by
  cases e with
  | scan f => exact .inl ⟨f, rfl, h⟩
  | expectedKind kinds t => exact .inr (.expectedKind kinds h)
  | expectedExpression t => exact .inr (.expectedExpression h)
  | invalidTarget span => exact .inr (.invalidTarget h)

theorem Scan.listed_of_error {s : Scan} {f : ScanFault} (h : s.stop = .error f) :
    s.listed = s.tokens := by
  rw [listed, h, List.append_nil]

theorem Scan.length_listed_le (s : Scan) : s.listed.length ≤ s.tokens.length + 1 := by
  rw [listed, List.length_append]
  cases s.stop <;> simp

namespace Program

/-- Every bound above the number of tokens gives the same answer. -/
theorem ofScan_of_bound {s : Scan} {n : Nat} (hn : s.tokens.length < n) :
    (∃ P rest, Parser.program n s.input = .done P rest ∧ ofScan s = .ok P) ∨
      ∃ e, Parser.program n s.input = .fault e ∧ ofScan s = .error e := by
  have hbound : Parser.program n s.input = Parser.program s.bound s.input :=
    Parser.program_bound hn (Nat.lt_succ_self _)
  rw [hbound]
  cases hr : Parser.program s.bound s.input with
  | done P rest => exact .inl ⟨P, rest, rfl, ofScan_eq_ok_iff.mpr ⟨rest, hr⟩⟩
  | fault e => exact .inr ⟨e, rfl, ofScan_eq_error_iff.mpr hr⟩
  | exhausted => exact absurd hr (Parser.program_ne_exhausted s)

/-- A source that has a program has no fault of its tokens. -/
theorem stop_of_ofGlyphs {gs : List Glyph} {ending : Ending} {P : Program}
    (h : ofGlyphs gs ending = .ok P) : ∃ p, (Scan.ofGlyphs gs ending).stop = .ok p := by
  obtain ⟨rest, hdone⟩ := ofScan_eq_ok_iff.mp h
  obtain ⟨p, hstop, -⟩ := Parser.derives_of_program
    (fun _ ht => (Scan.lexes gs ending).kind_ne_eof ht) hdone
  exact ⟨p, hstop⟩

end Program

/-- **The front end is total.**  Let a source be given by its bytes, and let it end properly or with
a failure of its supplier.

* All tokens can be taken with one request more than there are characters, and there is at most one
  token for each character, apart from the end.  A failure of the supplier does not change them.
* Whatever a lexer over the source has been asked, it remembers what it has to take back, and it
  answers what a parser sees that has taken as many tokens.
* The parser gives a program, or else one fault, and no bound above the number of tokens is felt.
  The fault is that of the tokens, or it lies within the tokens; and the source has broken off only
  if its supplier has failed.
* If there is a program, all tokens can be taken without a fault.  If the tokens end in a fault,
  then the parser meets this one, or another one that lies within the tokens before it. -/
theorem front_end_total (bytes : List UInt8) (ending : Ending) :
    let source := Glyph.ofBytes bytes
    let scan := Scan.ofGlyphs source ending
    ((∀ n, source.length < n →
        (Lexer.start source ending).drain n = some (scan.listed, scan.fault?)) ∧
      scan.tokens.length ≤ source.length ∧ scan.listed.length ≤ source.length + 1 ∧
      scan.tokens = (Scan.ofGlyphs source .finished).tokens ∧
      scan.stop = (Scan.ofGlyphs source .finished).stop >>= Scan.stopAt ending) ∧
    (∀ requests last, ((Lexer.start source ending).askAll requests).Serves
      ⟨scan.tokens.drop (requests.count .lex), scan.stop, last⟩) ∧
    (∀ n, scan.tokens.length < n →
      (∃ P rest, Parser.program n scan.input = .done P rest ∧
        Program.ofGlyphs source ending = .ok P) ∨
      ∃ e, Parser.program n scan.input = .fault e ∧ Program.ofGlyphs source ending = .error e) ∧
    (∀ e, Program.ofGlyphs source ending = .error e →
      (∃ f, e = .scan f ∧ scan.stop = .error f ∧
        ∀ reason, f = .broken reason → ending = .failed reason) ∨
      e.PointsInto scan.listed) ∧
    (∀ P, Program.ofGlyphs source ending = .ok P → ∃ p, scan.stop = .ok p) ∧
    ∀ f, scan.stop = .error f → ∃ e, Program.ofGlyphs source ending = .error e ∧
      (e = .scan f ∨ e.PointsInto scan.tokens) := by
  intro source scan
  have hlexes := Scan.lexes source ending
  have hcount : scan.tokens.length ≤ source.length := hlexes.length_le
  have habout : ∀ e, Program.ofGlyphs source ending = .error e →
      (∃ f, e = .scan f ∧ scan.stop = .error f) ∨ e.PointsInto scan.listed := by
    intro e he
    exact (Program.about_of_ofScan (Scan.rising_listed bytes ending) he).cases
  refine ⟨⟨?_, hcount, ?_, Scan.ofGlyphs_eq source ending⟩, ?_, ?_, ?_, ?_, ?_⟩
  · intro n hn
    exact (Lexer.gives_endless source ending).drain (fun _ ht => hlexes.kind_ne_eof ht)
      (Nat.lt_of_le_of_lt hcount hn)
  · exact Nat.le_trans scan.length_listed_le (Nat.succ_le_succ hcount)
  · intro requests last
    exact Lexer.serves_askAll source ending requests last
  · intro n hn
    exact Program.ofScan_of_bound hn
  · intro e he
    rcases habout e he with ⟨f, rfl, hstop⟩ | hin
    · refine .inl ⟨f, rfl, hstop, ?_⟩
      rintro reason rfl
      exact hlexes.ending_eq_failed hstop
    · exact .inr hin
  · intro P hP
    exact Program.stop_of_ofGlyphs hP
  · intro f hf
    rcases Program.ofScan_of_bound (s := scan) (Nat.lt_succ_self _) with
      ⟨P, rest, -, hP⟩ | ⟨e, -, he⟩
    · -- a program would have come to the end of the tokens
      obtain ⟨p, hp⟩ := Program.stop_of_ofGlyphs hP
      cases hf.symm.trans hp
    · refine ⟨e, he, ?_⟩
      rcases habout e he with ⟨f', rfl, hf'⟩ | hin
      · cases hf.symm.trans hf'
        exact .inl rfl
      · rw [Scan.listed_of_error hf] at hin
        exact .inr hin

end HamScript
