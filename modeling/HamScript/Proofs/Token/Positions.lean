/-
# The positions that a lexer reports

A lexer keeps a position while it reads, and puts it back whenever it takes characters back.  What it
reports is nevertheless fixed by the source alone.  Between any two characters, before the first and
behind the last there is a boundary, and `Glyph.boundary` says where it is by counting: bytes, line
feeds, and characters since the last line feed.

    the position of the lexer     some boundary
    a token                       the boundaries before its first and before its last character
    the end of the source         the last boundary
    a stray character             the boundary before it
    a string that is not closed   from the boundary before its quote to the last one

For tokens and faults this follows from the stream that a lexer gives.  The position is not a part of
the stream; that it is a boundary is an invariant of its own (`StandsIn`), which holds after a fault
too.
-/
import HamScript.Proofs.Source.Coordinates
import HamScript.Proofs.Syntax.Realises
import HamScript.Proofs.Token.Row
import HamScript.Proofs.Token.Stream

namespace HamScript

open Lexeme (IsLexeme)
open Source (Buffer Glyph Position)

/-! ## Boundaries -/

namespace Source

/-- The boundary behind the first `k` characters: its offset counts their bytes, its line the line
feeds among them, and its column the characters since the last line feed. -/
def Glyph.boundary (gs : List Glyph) (k : Nat) : Position :=
  ⟨byteCount (gs.take k), 1 + countFeeds (gs.take k), 1 + sinceFeed (gs.take k)⟩

/-- A position that is found by going over characters is the boundary behind them. -/
theorem Position.afterAll_eq_boundary {gs before after : List Glyph} (h : gs = before ++ after) :
    start.afterAll before = Glyph.boundary gs before.length := by
  have htake : gs.take before.length = before := by
    rw [h, List.take_left]
  have hoffset : (start.afterAll before).offset = Glyph.byteCount before := by
    rw [offset_afterAll]
    exact Int.zero_add _
  have hline : (start.afterAll before).line = 1 + Glyph.countFeeds before := line_afterAll _ _
  rw [Glyph.boundary, htake, ← hoffset, ← hline, ← column_afterAll]

theorem Position.afterAll_eq_last (gs : List Glyph) :
    start.afterAll gs = Glyph.boundary gs gs.length :=
  afterAll_eq_boundary (List.append_nil gs).symm

/-- The last boundary is behind all bytes. -/
theorem Glyph.offset_boundary_length (bytes : List UInt8) :
    (boundary (ofBytes bytes) (ofBytes bytes).length).offset = bytes.length := by
  rw [boundary, List.take_length, byteCount_ofBytes]

end Source

/-- A token in the stream is one of the scan, or the end of the source. -/
theorem Scan.cases_of_stream {s : Scan} {ending : Ending} {k : Nat} {t : Token}
    (h : s.stream ending k = .ok t) :
    s.tokens[k]? = some t ∨ ∃ p, s.stop = .ok p ∧ t = .endAt p := by
  rw [stream] at h
  split at h
  next u hk => exact .inl (hk.trans (congrArg some (Except.ok.inj h)))
  next =>
    obtain ⟨ts, stop⟩ := s
    cases stop with
    | error fault => cases h
    | ok p =>
        cases ending with
        | finished => exact .inr ⟨p, rfl, (Except.ok.inj h).symm⟩
        | failed reason => cases h

namespace Lexer

/-! ## The position of the lexer -/

/-- The lexer stands somewhere in the source. -/
def StandsIn (source : List Glyph) (l : Lexer) : Prop :=
  ∃ behind after, source = behind.reverse ++ after ∧ l.buffer.Stands behind after 0

section
variable {source : List Glyph} {l : Lexer}

theorem standsIn_start (source : List Glyph) (ending : Ending) :
    (start source ending).StandsIn source :=
  ⟨[], source, rfl, Buffer.stands_start source⟩

/-- Reading a token moves along the source, whether it ends with a token or with a fault. -/
theorem StandsIn.advance (h : l.StandsIn source) : l.advance.2.StandsIn source := by
  obtain ⟨behind, after, rfl, hb⟩ := h
  obtain ⟨answer, buffer, hread, -, passed, hafter, -, hb'⟩ := Token.meets_read l.ending hb
  have hstands : ∀ l' : Lexer, l'.buffer = buffer → l'.StandsIn (behind.reverse ++ after) := by
    rintro l' rfl
    refine ⟨passed.reverse ++ behind, _, ?_, hb'⟩
    rw [List.reverse_append, List.reverse_reverse, List.append_assoc, ← hafter]
  rw [Lexer.advance, hread]
  cases answer with
  | ok tok => exact hstands _ rfl
  | error fault => exact hstands _ rfl

theorem StandsIn.lex (h : l.StandsIn source) : l.lex.2.StandsIn source := by
  rw [Lexer.lex]
  split
  · exact h
  · exact h
  · exact h.advance

theorem StandsIn.peek (h : l.StandsIn source) : l.peek.2.StandsIn source := by
  have hlex := h.lex
  rw [Lexer.peek]
  split
  · exact h
  · rcases hl : l.lex with ⟨answer, l'⟩
    rw [hl] at hlex
    cases answer with
    | ok tok => exact hlex
    | error fault => exact hlex

theorem StandsIn.peekIs (h : l.StandsIn source) (kinds : List Kind) :
    (l.peekIs kinds).2.StandsIn source := by
  have hpeek := h.peek
  rw [Lexer.peekIs]
  rcases hl : l.peek with ⟨answer, l'⟩
  rw [hl] at hpeek
  cases answer with
  | ok tok => exact hpeek
  | error fault => exact hpeek

/-- No sequence of requests leads out of the source. -/
theorem StandsIn.askAll (h : l.StandsIn source) (requests : List Request) :
    (l.askAll requests).StandsIn source := by
  induction requests generalizing l with
  | nil => exact h
  | cons r requests ih =>
      refine ih ?_
      cases r with
      | lex => exact h.lex
      | peek => exact h.peek
      | peekIs kinds => exact h.peekIs kinds
      | position => exact h

theorem StandsIn.position_eq (h : l.StandsIn source) :
    ∃ k ≤ source.length, l.position = Glyph.boundary source k := by
  obtain ⟨behind, after, rfl, hb⟩ := h
  refine ⟨behind.reverse.length, ?_, ?_⟩
  · rw [List.length_append]
    exact Nat.le_add_right _ _
  · rw [← Position.afterAll_eq_boundary rfl]
    exact hb.position_eq

end

/-! ## The positions in an answer -/

/-- The answer is about something in the source, and its positions are where this stands. -/
inductive Placed (source : List Glyph) : Ending → Except ScanFault Token → Prop
  /-- A token begins with its first character and ends with its last one. -/
  | token {ending : Ending} {before taken after : List Glyph} {kind : Kind} {text : String} :
      source = before ++ (taken ++ after) → IsLexeme kind text taken after →
      Placed source ending (.ok ⟨kind, text, ⟨Glyph.boundary source before.length,
        Glyph.boundary source (before.length + (taken.length - 1))⟩⟩)
  | ended : Placed source .finished (.ok (.endAt (Glyph.boundary source source.length)))
  | stray {ending : Ending} {before after : List Glyph} {g : Glyph} :
      source = before ++ g :: after →
      Placed source ending
        (.error (.unrecognized g.char (.single (Glyph.boundary source before.length))))
  | unclosed {ending : Ending} {before after : List Glyph} {q : Glyph} :
      source = before ++ q :: after → q.char = '"' →
      Placed source ending (.error (.unterminated
        ⟨Glyph.boundary source before.length, Glyph.boundary source source.length⟩))
  /-- A failure of the supplier has no position. -/
  | broken {reason : String} : Placed source (.failed reason) (.error (.broken reason))

theorem placed_token {source : List Glyph} {t : Token}
    (ht : t ∈ (Scan.ofGlyphs source .finished).tokens) (ending : Ending) :
    Placed source ending (.ok t) := by
  obtain ⟨before, taken, after, hsource, hlexeme, hspan⟩ :=
    (Scan.lexes source .finished).exists_lexeme ht
  obtain ⟨kind, text, span⟩ := t
  obtain rfl : span = .ofGlyphs (Position.start.afterAll before) taken := hspan
  have hsplit : source =
      (before ++ taken.dropLast) ++ (taken.getLast hlexeme.taken_ne_nil :: after) := by
    rw [List.append_assoc, List.append_cons taken.dropLast, List.dropLast_concat_getLast]
    exact hsource
  have hlast := Position.afterAll_eq_boundary hsplit
  rw [Position.afterAll_append, List.length_append, List.length_dropLast] at hlast
  have hplaced : Placed source ending _ := .token hsource hlexeme
  rw [← hlast, ← Position.afterAll_eq_boundary hsource] at hplaced
  exact hplaced

theorem placed_tail (source : List Glyph) (ending : Ending) :
    Placed source ending ((Scan.ofGlyphs source .finished).tail ending) := by
  have hlexes := Scan.lexes source .finished
  generalize Scan.ofGlyphs source .finished = scan at hlexes ⊢
  obtain ⟨ts, stop⟩ := scan
  cases stop with
  | ok p =>
      obtain rfl := hlexes.stop_eq rfl
      cases ending with
      | finished =>
          rw [Position.afterAll_eq_last]
          exact .ended
      | failed reason => exact .broken
  | error fault =>
      obtain ⟨before, g, after, hsource, ⟨-, rfl⟩ | ⟨hq, -, rfl⟩⟩ := hlexes.exists_fault rfl
      · rw [Position.afterAll_eq_boundary hsource]
        exact .stray hsource
      · rw [Position.afterAll_eq_boundary hsource, Position.afterAll_eq_last]
        exact .unclosed hsource hq

theorem placed_stream (source : List Glyph) (ending : Ending) (k : Nat) :
    Placed source ending ((Scan.ofGlyphs source .finished).stream ending k) := by
  rw [Scan.stream]
  split
  next t ht => exact placed_token (List.mem_of_getElem? ht) ending
  next => exact placed_tail source ending

/-! ## The order of tokens -/

/-- A token of the stream ends before any later one begins, the end of the source among them. -/
theorem stream_rising (bytes : List UInt8) (ending : Ending) {i j : Nat} {t u : Token} (hij : i < j)
    (ht : (Scan.ofGlyphs (Glyph.ofBytes bytes) .finished).stream ending i = .ok t)
    (hkind : t.kind ≠ .eof)
    (hu : (Scan.ofGlyphs (Glyph.ofBytes bytes) .finished).stream ending j = .ok u) :
    t.span.last.offset < u.span.first.offset := by
  have hr := Scan.rising_listed bytes .finished
  generalize Scan.ofGlyphs (Glyph.ofBytes bytes) .finished = scan at ht hu hr
  rcases Scan.cases_of_stream ht with hi | ⟨p, -, rfl⟩
  · rcases Scan.cases_of_stream hu with hj | ⟨p, hstop, rfl⟩
    · have hr := hr.of_append.1
      rw [← List.take_append_drop j scan.tokens] at hr
      refine hr.lt_of_append (List.mem_of_getElem? (i := i) ?_) (List.mem_of_getElem? (i := 0) ?_)
      · rw [List.getElem?_take_of_lt hij]
        exact hi
      · rw [List.getElem?_drop]
        exact hj
    · rw [Scan.listed, hstop] at hr
      exact hr.lt_of_append (List.mem_of_getElem? hi) List.mem_cons_self
  · exact absurd rfl hkind

/-! ## Any sequence of requests -/

/-- The lexer over the bytes, after requests. -/
def asked (bytes : List UInt8) (ending : Ending) (requests : List Request) : Lexer :=
  (start (Glyph.ofBytes bytes) ending).askAll requests

theorem gives_asked (bytes : List UInt8) (ending : Ending) (requests : List Request) :
    Gives (asked bytes ending requests) fun k =>
      (Scan.ofGlyphs (Glyph.ofBytes bytes) .finished).stream ending (requests.count .lex + k) :=
  (gives_start _ ending).askAll requests

/-- **Positions are coordinates.**  However a lexer over a byte sequence has been asked before, its
position is a boundary of the source, and the next token, or the fault in its place, is placed at
the boundaries of its characters, both when it is taken and when it is looked at.  The end of the
source is behind all bytes.  A token that is taken ends before any token begins that is taken
later. -/
theorem positions_are_coordinates (bytes : List UInt8) (ending : Ending) (requests : List Request) :
    (∃ k ≤ (Glyph.ofBytes bytes).length,
      (asked bytes ending requests).position = Glyph.boundary (Glyph.ofBytes bytes) k) ∧
    Placed (Glyph.ofBytes bytes) ending (asked bytes ending requests).lex.1 ∧
    Placed (Glyph.ofBytes bytes) ending (asked bytes ending requests).peek.1 ∧
    (Glyph.boundary (Glyph.ofBytes bytes) (Glyph.ofBytes bytes).length).offset = bytes.length ∧
    ∀ more t u, Request.lex ∈ more → (asked bytes ending requests).lex.1 = .ok t → t.kind ≠ .eof →
      (asked bytes ending (requests ++ more)).lex.1 = .ok u →
      t.span.last.offset < u.span.first.offset := by
  have hgives := gives_asked bytes ending requests
  have hplaced := placed_stream (Glyph.ofBytes bytes) ending (requests.count .lex)
  refine ⟨((standsIn_start _ ending).askAll requests).position_eq, ?_, ?_,
    Glyph.offset_boundary_length bytes, ?_⟩
  · rw [hgives.lex.1]
    exact hplaced
  · rw [hgives.peek.1]
    exact hplaced
  · intro more t u hmore ht hkind hu
    rw [hgives.lex.1] at ht
    rw [(gives_asked bytes ending (requests ++ more)).lex.1] at hu
    refine stream_rising bytes ending ?_ ht hkind hu
    have hcount := List.count_pos_iff.mpr hmore
    rw [List.count_append]
    omega

/-- `a "é`, a line break, `€" // ü` with a byte that begins no character, a line break, and ` b`:
the string goes over two lines, and the name is in column 2 of the third one. -/
def scattered : List UInt8 :=
  [97, 32, 34, 0xC3, 0xA9, 10, 0xE2, 0x82, 0xAC, 34, 32, 47, 47, 32, 0xC3, 0xBC, 0xFF, 10, 32, 98]

theorem positions_are_coordinates_scattered :
    ∃ t u, (asked scattered .finished [.peek, .lex, .position]).lex.1 = .ok t ∧
      t = ⟨.string, "é\n€", ⟨⟨2, 1, 3⟩, ⟨9, 2, 2⟩⟩⟩ ∧
      (asked scattered .finished ([.peek, .lex, .position] ++ [.peek, .lex])).lex.1 = .ok u ∧
      u = ⟨.ident, "b", ⟨⟨19, 3, 2⟩, ⟨19, 3, 2⟩⟩⟩ ∧
      Placed (Glyph.ofBytes scattered) .finished (.ok t) ∧
      t.span.last.offset < u.span.first.offset := by
  have hstring : (asked scattered .finished [.peek, .lex, .position]).lex.1 =
      .ok ⟨.string, "é\n€", ⟨⟨2, 1, 3⟩, ⟨9, 2, 2⟩⟩⟩ := eq_ok_of_toOption (by decide +kernel)
  have hname : (asked scattered .finished ([.peek, .lex, .position] ++ [.peek, .lex])).lex.1 =
      .ok ⟨.ident, "b", ⟨⟨19, 3, 2⟩, ⟨19, 3, 2⟩⟩⟩ := eq_ok_of_toOption (by decide +kernel)
  obtain ⟨-, hplaced, -, -, horder⟩ :=
    positions_are_coordinates scattered .finished [.peek, .lex, .position]
  rw [hstring] at hplaced
  have hlt := horder [.peek, .lex] _ _ (by decide) hstring (by decide) hname
  exact ⟨_, _, hstring, rfl, hname, rfl, hplaced, hlt⟩

end Lexer

end HamScript
