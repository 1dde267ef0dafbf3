/-
# A lexer gives one stream

However a lexer is asked, what it gives is one stream of answers, which is fixed by the source: the
tokens that scanning finds, and then the same answer for ever.

    the source ends properly          the end of the source
    the supplier fails                this failure
    a character begins no token,
    or a string is not closed         this fault

Looking at the next token and asking for its kind give the front of the stream and leave it as it
is; taking a token moves it on by one.  Asking for the position leaves it as it is too.
-/
import HamScript.Proofs.Token.Buffered
import HamScript.Token.Lexer

namespace HamScript

open Source (Buffer Glyph Position spot)

/-! ## The stream of a source -/

namespace Scan

/-- What comes after all tokens, in a source whose scan without a failure of its supplier is `s`. -/
def tail (s : Scan) (ending : Ending) : Except ScanFault Token :=
  match s.stop, ending with
  | .error fault, _ => .error fault
  | .ok p, .finished => .ok (.endAt p)
  | .ok _, .failed reason => .error (.broken reason)

/-- The tokens of a scan and then, for ever, what comes after them. -/
def stream (s : Scan) (ending : Ending) (k : Nat) : Except ScanFault Token :=
  match s.tokens[k]? with
  | some t => .ok t
  | none => s.tail ending

end Scan

/-- The tokens and then, for ever, how they stop. -/
def Token.endless (ts : List Token) (stop : Except ScanFault Position) (k : Nat) :
    Except ScanFault Token :=
  match ts[k]? with
  | some t => .ok t
  | none => stop.map endAt

/-- Where a supplier fails, the division is the same up to its end. -/
theorem Lexes.of_finished {p : Position} {gs : List Glyph} {ts : List Token}
    {stop : Except ScanFault Position} (h : Lexes .finished p gs ts stop) (ending : Ending) :
    Lexes ending p gs ts (stop >>= Scan.stopAt ending) := by
  induction h with
  | done hgap => exact .done hgap
  | token hgap hlexeme _ ih => exact .token hgap hlexeme ih
  | stray hgap hstray => exact .stray hgap hstray
  | unclosed hgap hq hrest => exact .unclosed hgap hq hrest

theorem Scan.stream_eq (s : Scan) (ending : Ending) :
    s.stream ending = Token.endless s.tokens (s.stop >>= stopAt ending) := by
  obtain ⟨tokens, stop⟩ := s
  have htail : tail ⟨tokens, stop⟩ ending = (stop >>= stopAt ending).map Token.endAt := by
    cases stop with
    | error fault => rfl
    | ok p => cases ending <;> rfl
  funext k
  rw [stream, Token.endless, htail]

/-! ## What a lexer gives -/

namespace Lexer

/-- One more answer in front of a stream. -/
def cons (a : Except ScanFault Token) (S : Nat → Except ScanFault Token) :
    Nat → Except ScanFault Token
  | 0 => a
  | k + 1 => S k

/-- No token has been looked at, and the lexer is to give the stream: it stands before characters
that are divided into these tokens, or has met a fault. -/
inductive Rests : Lexer → (Nat → Except ScanFault Token) → Prop
  | ready {buffer : Buffer} {behind after : List Glyph} {ending : Ending} {ts : List Token}
      {stop : Except ScanFault Position} :
      buffer.Stands behind after 0 → Lexes ending (spot behind) after ts stop →
      Rests ⟨buffer, ending, none, none⟩ (Token.endless ts stop)
  | faulted {buffer : Buffer} {ending : Ending} {fault : ScanFault} :
      Rests ⟨buffer, ending, none, some fault⟩ fun _ => .error fault

/-- The lexer is to give the stream. -/
inductive Gives : Lexer → (Nat → Except ScanFault Token) → Prop
  | resting {l : Lexer} {S : Nat → Except ScanFault Token} : Rests l S → Gives l S
  | peeked {l : Lexer} {S : Nat → Except ScanFault Token} (t : Token) :
      Rests l S → Gives { l with peeked := some t } (cons (.ok t) S)

/-- Reading the next token is one step along the division. -/
theorem rests_advance {buffer : Buffer} {behind after : List Glyph} {ending : Ending}
    {ts : List Token} {stop : Except ScanFault Position} (hb : buffer.Stands behind after 0)
    (hlexes : Lexes ending (spot behind) after ts stop) :
    ∃ l', advance ⟨buffer, ending, none, none⟩ = (Token.endless ts stop 0, l') ∧
      Rests l' fun k => Token.endless ts stop (k + 1) := by
  obtain ⟨answer, buffer', hread, rfl, passed, -, hspot, hb'⟩ := Token.meets_read ending hb
  generalize passed.reverse ++ behind = behind' at hspot hb'
  have hadvance : advance ⟨buffer, ending, none, none⟩ =
      match (Token.step (spot behind) after).answer ending with
      | .ok tok => (.ok tok, ⟨buffer', ending, none, none⟩)
      | .error fault => (.error fault, ⟨buffer', ending, none, some fault⟩) := by
    rw [advance]
    dsimp only
    rw [hread]
    cases (Token.step (spot behind) after).answer ending <;> rfl
  rw [hadvance]
  generalize spot behind = p at hlexes hspot hb' ⊢
  cases hlexes with
  | done hgap =>
      rw [Token.step_ended hgap] at hspot hb' ⊢
      cases ending with
      | finished =>
          -- at the end of the source the lexer stays where it is
          have hend : Lexes .finished (spot behind') [] [] (.ok (spot behind')) :=
            .done (.nil [])
          have hspot : spot behind' = p.afterAll after := hspot
          refine ⟨_, rfl, ?_⟩
          show Rests _ (Token.endless [] (.ok (p.afterAll after)))
          rw [← hspot]
          exact .ready hb' hend
      | failed reason => exact ⟨_, rfl, .faulted⟩
  | @token _ gap taken _ _ _ _ _ hgap hlexeme hrest =>
      rw [Token.step_token hgap hlexeme] at hspot hb' ⊢
      have hspot : spot behind' = p.afterAll (gap ++ taken) := hspot
      rw [← hspot] at hrest
      exact ⟨_, rfl, .ready hb' hrest⟩
  | stray hgap hstray =>
      rw [Token.step_stray hgap hstray]
      exact ⟨_, rfl, .faulted⟩
  | unclosed hgap hq hrest =>
      rw [Token.step_unclosed hgap hq hrest]
      exact ⟨_, rfl, .faulted⟩

section
variable {l : Lexer} {S : Nat → Except ScanFault Token}

theorem Rests.lex (h : Rests l S) : l.lex.1 = S 0 ∧ Rests l.lex.2 fun k => S (k + 1) := by
  cases h with
  | ready hb hlexes =>
      obtain ⟨l', hadvance, hl'⟩ := rests_advance hb hlexes
      rw [Lexer.lex]
      dsimp only
      rw [hadvance]
      exact ⟨rfl, hl'⟩
  | faulted => exact ⟨rfl, .faulted⟩

/-- After an error there is nothing else. -/
theorem Rests.eq_of_error {fault : ScanFault} (h : Rests l S) (hS : S 0 = .error fault) :
    S = fun _ => .error fault := by
  cases h with
  | faulted =>
      funext k
      exact hS
  | @ready _ _ _ _ ts stop _ _ =>
      cases ts with
      | nil =>
          funext k
          exact hS
      | cons t ts => exact nomatch hS

theorem Rests.peeked_eq (h : Rests l S) : l.peeked = none := by
  cases h <;> rfl

/-- A stream is its first answer and the rest. -/
theorem cons_eta (S : Nat → Except ScanFault Token) : cons (S 0) (fun k => S (k + 1)) = S := by
  funext k
  cases k <;> rfl

/-- Taking a token moves the stream on by one. -/
theorem Gives.lex (h : Gives l S) : l.lex.1 = S 0 ∧ Gives l.lex.2 fun k => S (k + 1) := by
  cases h with
  | resting h => exact ⟨h.lex.1, .resting h.lex.2⟩
  | @peeked l S t h =>
      have hl : l.peeked = none := h.peeked_eq
      refine ⟨rfl, .resting ?_⟩
      show Rests { l with peeked := none } S
      rw [← hl]
      exact h

/-- Looking at a token leaves the stream as it is. -/
theorem Gives.peek (h : Gives l S) : l.peek.1 = S 0 ∧ Gives l.peek.2 S := by
  cases h with
  | peeked t h => exact ⟨rfl, .peeked t h⟩
  | resting h =>
      obtain ⟨hfirst, hrest⟩ := h.lex
      rw [Lexer.peek, h.peeked_eq]
      dsimp only
      rcases hlex : l.lex with ⟨answer, l'⟩
      rw [hlex] at hfirst hrest
      obtain rfl : answer = S 0 := hfirst
      cases hS : S 0 with
      | ok t =>
          have hgives := Gives.peeked t hrest
          rw [← hS, cons_eta] at hgives
          exact ⟨rfl, hgives⟩
      | error fault =>
          rw [h.eq_of_error hS] at hrest ⊢
          exact ⟨rfl, .resting hrest⟩

theorem Gives.peekIs (h : Gives l S) (kinds : List Kind) :
    ((l.peekIs kinds).1 = true ↔ ∃ t, S 0 = .ok t ∧ t.kind ∈ kinds) ∧
      Gives (l.peekIs kinds).2 S := by
  obtain ⟨hfirst, hrest⟩ := h.peek
  rw [Lexer.peekIs]
  rcases hpeek : l.peek with ⟨answer, l'⟩
  rw [hpeek] at hfirst hrest
  rw [← show answer = S 0 from hfirst]
  cases answer with
  | ok t => exact ⟨by simp, hrest⟩
  | error fault => exact ⟨by simp, hrest⟩

end

theorem gives_start (gs : List Glyph) (ending : Ending) :
    Gives (start gs ending) ((Scan.ofGlyphs gs .finished).stream ending) := by
  have hlexes := (Scan.lexes gs .finished).of_finished ending
  rw [Scan.stream_eq]
  exact .resting (.ready (Buffer.stands_start gs) hlexes)

/-! ## Sequences of requests -/

/-- What a lexer can be asked for. -/
inductive Request where
  | lex
  | peek
  | peekIs (kinds : List Kind)
  | position
  deriving DecidableEq

/-- The lexer after a request. -/
def ask (l : Lexer) : Request → Lexer
  | .lex => l.lex.2
  | .peek => l.peek.2
  | .peekIs kinds => (l.peekIs kinds).2
  | .position => l

/-- The lexer after requests, one after the other. -/
def askAll (l : Lexer) (requests : List Request) : Lexer :=
  requests.foldl ask l

@[simp] theorem askAll_nil (l : Lexer) : l.askAll [] = l := rfl

@[simp] theorem askAll_cons (l : Lexer) (r : Request) (requests : List Request) :
    l.askAll (r :: requests) = (l.ask r).askAll requests := rfl

/-- The stream moves on by one for each token that is taken, and by nothing else. -/
theorem Gives.askAll {l : Lexer} {S : Nat → Except ScanFault Token} (h : Gives l S)
    (requests : List Request) :
    Gives (l.askAll requests) fun k => S (requests.count .lex + k) := by
  induction requests generalizing l S with
  | nil => simpa using h
  | cons r requests ih =>
      cases r with
      | lex =>
          have hrest := ih h.lex.2
          simpa [ask, Nat.add_right_comm, Nat.add_assoc] using hrest
      | peek => simpa [ask] using ih h.peek.2
      | peekIs kinds => simpa [ask] using ih (h.peekIs kinds).2
      | position => simpa [ask] using ih h

/-- However a lexer over a byte sequence has been asked before, with `k` tokens taken, taking the
next token and looking at it give the answer number `k` of the stream, and asking for kinds says
whether this is a token of one of them. -/
theorem answers_eq_stream (bytes : List UInt8) (ending : Ending) (requests : List Request) :
    let source := Glyph.ofBytes bytes
    let l := (start source ending).askAll requests
    let answer := (Scan.ofGlyphs source .finished).stream ending (requests.count .lex)
    l.lex.1 = answer ∧ l.peek.1 = answer ∧
      ∀ kinds, (l.peekIs kinds).1 = true ↔ ∃ t, answer = .ok t ∧ t.kind ∈ kinds := by
  intro source l answer
  have hgives := (gives_start source ending).askAll requests
  refine ⟨hgives.lex.1, hgives.peek.1, ?_⟩
  intro kinds
  exact (hgives.peekIs kinds).1

end Lexer

end HamScript
