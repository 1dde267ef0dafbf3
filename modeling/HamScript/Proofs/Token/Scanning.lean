/-
# Scanning realises the lexical grammar

`Lexes` says how a source is divided into gaps and lexemes, with the position of each token, and how
the division comes to its end: with the source, at a stray character, or in a string that nothing
closes.  Every source has exactly one division, and it is the one that scanning finds.
-/
import HamScript.Proofs.Source.Decoding
import HamScript.Proofs.Token.Lexical
import HamScript.Token.Scan

namespace HamScript

open Lexeme (BeginsLexeme Gap IsLexeme Solid Stray Unclosed)
open Source (Glyph Position Span)

/-- The characters, which stand from a position on, are gaps and the lexemes of the tokens, up to
where the division stops. -/
inductive Lexes (ending : Ending) :
    Position → List Glyph → List Token → Except ScanFault Position → Prop
  | done {p : Position} {gap : List Glyph} :
      Gap gap [] → Lexes ending p gap [] (Scan.stopAt ending (p.afterAll gap))
  | token {p : Position} {gap taken rest : List Glyph} {kind : Kind} {text : String}
      {ts : List Token} {stop : Except ScanFault Position} :
      Gap gap (taken ++ rest) → IsLexeme kind text taken rest →
      Lexes ending (p.afterAll (gap ++ taken)) rest ts stop →
      Lexes ending p (gap ++ (taken ++ rest)) (⟨kind, text, .ofGlyphs (p.afterAll gap) taken⟩ :: ts)
        stop
  | stray {p : Position} {gap rest : List Glyph} {g : Glyph} :
      Gap gap (g :: rest) → Stray g rest →
      Lexes ending p (gap ++ g :: rest) []
        (.error (.unrecognized g.char (.single (p.afterAll gap))))
  | unclosed {p : Position} {gap rest : List Glyph} {q : Glyph} :
      Gap gap (q :: rest) → q.char = '"' → Unclosed rest →
      Lexes ending p (gap ++ q :: rest) []
        (.error (.unterminated ⟨p.afterAll gap, p.afterAll (gap ++ q :: rest)⟩))

/-! ## Positions -/

namespace Source.Position

@[simp] theorem afterAll_nil (p : Position) : p.afterAll [] = p := rfl

@[simp] theorem afterAll_cons (p : Position) (g : Glyph) (gs : List Glyph) :
    p.afterAll (g :: gs) = (p.after g).afterAll gs := rfl

theorem afterAll_append (p : Position) (as bs : List Glyph) :
    p.afterAll (as ++ bs) = (p.afterAll as).afterAll bs :=
  List.foldl_append

theorem offset_after (p : Position) (g : Glyph) : (p.after g).offset = p.offset + g.size := by
  unfold after
  split <;> rfl

/-- Offsets count bytes. -/
theorem offset_afterAll (p : Position) (gs : List Glyph) :
    (p.afterAll gs).offset = p.offset + Glyph.byteCount gs := by
  induction gs generalizing p with
  | nil => simp
  | cons g gs ih =>
      rw [afterAll_cons, ih, offset_after, Glyph.byteCount_cons]
      omega

end Source.Position

/-! ## The division that scanning finds -/

namespace Scan

theorem readFrom_skip (ending : Ending) (p : Position) : (skip : Nat) → (gs : List Glyph) →
    readFrom ending skip p gs = readFrom ending 0 p (gs.drop skip)
  | 0, _ => rfl
  | _ + 1, [] => rfl
  | skip + 1, _ :: gs => readFrom_skip ending p skip gs

variable {ending : Ending} {p next : Position} {gs rest : List Glyph}

theorem readFrom_of_ended (h : Token.step p gs = .ended next) :
    readFrom ending 0 p gs = ⟨[], stopAt ending next⟩ := by
  cases gs with
  | nil =>
      obtain rfl : p = next := by injection h
      rfl
  | cons g gs => simp [readFrom, h]

theorem readFrom_of_fault {fault : ScanFault} (h : Token.step p gs = .fault fault next rest) :
    readFrom ending 0 p gs = ⟨[], .error fault⟩ := by
  cases gs with
  | nil => exact nomatch h
  | cons g gs => simp [readFrom, h]

theorem readFrom_of_token {t : Token} {size : Nat} (h : Token.step p gs = .token t size next rest)
    (hsize : size ≠ 0) (hrest : gs.drop size = rest) :
    readFrom ending 0 p gs = (readFrom ending 0 next rest).push t := by
  cases gs with
  | nil => exact nomatch h
  | cons g gs =>
      obtain ⟨size, rfl⟩ := Nat.exists_eq_succ_of_ne_zero hsize
      rw [List.drop_succ_cons] at hrest
      simp only [readFrom, h]
      rw [readFrom_skip, Nat.succ_sub_one, hrest]

end Scan

namespace Token

variable {p : Position} {gap rest : List Glyph}

theorem step_ended (hgap : Gap gap []) : step p gap = .ended (p.afterAll gap) := by
  have hsplit := Lexeme.splitGap_append hgap trivial
  rw [List.append_nil] at hsplit
  rw [step, hsplit]

theorem step_token {kind : Kind} {text : String} {taken : List Glyph}
    (hgap : Gap gap (taken ++ rest)) (hlexeme : IsLexeme kind text taken rest) :
    step p (gap ++ (taken ++ rest)) = .token ⟨kind, text, .ofGlyphs (p.afterAll gap) taken⟩
      (gap.length + taken.length) (p.afterAll (gap ++ taken)) rest := by
  obtain ⟨g, more, rfl⟩ := List.exists_cons_of_ne_nil hlexeme.taken_ne_nil
  have hcut : Lexeme.cut g (more ++ rest) = .lexeme kind text (g :: more) rest :=
    hlexeme.cut_eq rfl
  rw [step, Lexeme.splitGap_append hgap hlexeme.solid, Position.afterAll_append]
  simp only [List.cons_append, hcut]

theorem step_stray {g : Glyph} (hgap : Gap gap (g :: rest)) (hstray : Stray g rest) :
    step p (gap ++ g :: rest) = .fault (.unrecognized g.char (.single (p.afterAll gap)))
      ((p.afterAll gap).after g) rest := by
  rw [step, Lexeme.splitGap_append hgap hstray.1]
  simp only [hstray.cut_eq]

theorem step_unclosed {q : Glyph} (hgap : Gap gap (q :: rest)) (hq : q.char = '"')
    (hrest : Unclosed rest) :
    step p (gap ++ q :: rest) =
      .fault (.unterminated ⟨p.afterAll gap, p.afterAll (gap ++ q :: rest)⟩)
        (p.afterAll (gap ++ q :: rest)) [] := by
  have hsolid : Solid (q :: rest) :=
    ⟨Text.not_isBlank_of_punctuation (by rw [hq]; rfl), fun hs => by rw [hq] at hs; cases hs⟩
  rw [step, Lexeme.splitGap_append hgap hsolid, Position.afterAll_append]
  simp only [Lexeme.cut_unclosed hq hrest]

end Token

/-- Scanning finds the division. -/
theorem Lexes.readFrom_eq {ending : Ending} {p : Position} {gs : List Glyph} {ts : List Token}
    {stop : Except ScanFault Position} (h : Lexes ending p gs ts stop) :
    Scan.readFrom ending 0 p gs = ⟨ts, stop⟩ := by
  induction h with
  | done hgap => exact Scan.readFrom_of_ended (Token.step_ended hgap)
  | @token p gap taken rest kind text ts stop hgap hlexeme _ ih =>
      have hpos := List.length_pos_iff.mpr hlexeme.taken_ne_nil
      have hdrop : (gap ++ (taken ++ rest)).drop (gap.length + taken.length) = rest := by
        rw [← List.drop_drop, List.drop_left, List.drop_left]
      rw [Scan.readFrom_of_token (Token.step_token hgap hlexeme) (by omega) hdrop, ih]
      rfl
  | stray hgap hstray => exact Scan.readFrom_of_fault (Token.step_stray hgap hstray)
  | unclosed hgap hq hrest => exact Scan.readFrom_of_fault (Token.step_unclosed hgap hq hrest)

/-- Every source has a division. -/
theorem exists_lexes (ending : Ending) : (gs : List Glyph) → (p : Position) →
    ∃ ts stop, Lexes ending p gs ts stop
  | gs, p => by
      obtain ⟨gap, rest, rfl, hgap, hsolid⟩ := Lexeme.exists_gap gs
      cases rest with
      | nil =>
          rw [List.append_nil]
          exact ⟨_, _, .done hgap⟩
      | cons g rest =>
          rcases hsolid.cases with
            ⟨kind, text, taken, rest', hsource, hlexeme⟩ | hstray | ⟨hq, hrest⟩
          · have hpos := List.length_pos_iff.mpr hlexeme.taken_ne_nil
            have hlt : rest'.length < (gap ++ g :: rest).length := by
              rw [← hsource, List.length_append, List.length_append]
              omega
            obtain ⟨ts, stop, hlexes⟩ := exists_lexes ending rest' (p.afterAll (gap ++ taken))
            rw [← hsource] at hgap ⊢
            exact ⟨_, _, .token hgap hlexeme hlexes⟩
          · exact ⟨_, _, .stray hgap hstray⟩
          · exact ⟨_, _, .unclosed hgap hq hrest⟩
termination_by gs => gs.length

/-- The division that scanning finds is the only one. -/
theorem lexes_iff {ending : Ending} {p : Position} {gs : List Glyph} {ts : List Token}
    {stop : Except ScanFault Position} :
    Lexes ending p gs ts stop ↔ Scan.readFrom ending 0 p gs = ⟨ts, stop⟩ := by
  constructor
  · exact Lexes.readFrom_eq
  · intro h
    obtain ⟨ts', stop', hlexes⟩ := exists_lexes ending gs p
    obtain ⟨rfl, rfl⟩ := Scan.mk.inj (hlexes.readFrom_eq.symm.trans h)
    exact hlexes

theorem Scan.lexes (gs : List Glyph) (ending : Ending) :
    Lexes ending .start gs (Scan.ofGlyphs gs ending).tokens (Scan.ofGlyphs gs ending).stop :=
  lexes_iff.mpr rfl

/-! ## What the division says of tokens and faults -/

namespace Lexes

variable {ending : Ending} {p q : Position} {gs : List Glyph} {ts : List Token}
  {stop : Except ScanFault Position}

/-- Each token stands for a lexeme of the source and has its span. -/
theorem exists_lexeme (h : Lexes ending p gs ts stop) {t : Token} (ht : t ∈ ts) :
    ∃ before taken after, gs = before ++ (taken ++ after) ∧ IsLexeme t.kind t.text taken after ∧
      t.span = .ofGlyphs (p.afterAll before) taken := by
  induction h with
  | done | stray | unclosed => exact absurd ht List.not_mem_nil
  | @token p gap taken rest kind text ts stop hgap hlexeme _ ih =>
      rcases List.mem_cons.mp ht with rfl | ht
      · exact ⟨gap, taken, rest, rfl, hlexeme, rfl⟩
      · obtain ⟨before, taken', after, rfl, hlexeme', hspan⟩ := ih ht
        refine ⟨gap ++ taken ++ before, taken', after, by simp, hlexeme', ?_⟩
        rw [hspan, Position.afterAll_append p (gap ++ taken)]

/-- A division without a fault ends with the source. -/
theorem stop_eq (h : Lexes ending p gs ts stop) (hstop : stop = .ok q) : q = p.afterAll gs := by
  induction h with
  | done hgap =>
      cases ending with
      | finished => exact (Except.ok.inj hstop).symm
      | failed reason => exact nomatch hstop
  | token hgap hlexeme _ ih => rw [ih hstop, ← Position.afterAll_append, List.append_assoc]
  | stray | unclosed => exact nomatch hstop

/-- A fault is a stray character, or a string that goes on to the end. -/
theorem exists_fault {fault : ScanFault} (h : Lexes .finished p gs ts stop)
    (hstop : stop = .error fault) : ∃ before g after, gs = before ++ g :: after ∧
      (Stray g after ∧ fault = .unrecognized g.char (.single (p.afterAll before)) ∨
        g.char = '"' ∧ Unclosed after ∧
          fault = .unterminated ⟨p.afterAll before, p.afterAll gs⟩) := by
  induction h with
  | done hgap => exact nomatch hstop
  | @token p gap taken rest kind text ts stop hgap hlexeme _ ih =>
      obtain ⟨before, g, after, rfl, hfault⟩ := ih hstop
      refine ⟨gap ++ taken ++ before, g, after, by simp, ?_⟩
      simpa only [← Position.afterAll_append, ← List.append_assoc] using hfault
  | @stray p gap rest g hgap hstray =>
      exact ⟨gap, g, rest, rfl, .inl ⟨hstray, (Except.error.inj hstop).symm⟩⟩
  | @unclosed p gap rest q hgap hq hrest =>
      exact ⟨gap, q, rest, rfl, .inr ⟨hq, hrest, (Except.error.inj hstop).symm⟩⟩

/-- No token is the end of the source. -/
theorem kind_ne_eof (h : Lexes ending p gs ts stop) {t : Token} (ht : t ∈ ts) : t.kind ≠ .eof := by
  obtain ⟨before, taken, after, -, hlexeme, -⟩ := h.exists_lexeme ht
  generalize t.kind = kind, t.text = text at hlexeme
  have hmarks : ∀ m ∈ Lexeme.marks, m.2 ≠ .eof := by decide
  have hwords : ∀ w ∈ Lexeme.words, w.2 ≠ .eof := by decide
  cases hlexeme with
  | mark rest hmark => exact hmarks _ hmark
  | word hstart hws hstop hkind =>
      rcases hkind with hword | ⟨rfl, -⟩
      · exact hwords _ hword
      · exact Kind.noConfusion
  | _ => exact Kind.noConfusion

end Lexes

-- `5.x===1.2.3/`: a point belongs to a number only before a digit, and only once.
example : (Scan.ofGlyphs (Glyph.ofBytes [53, 46, 120, 61, 61, 61, 49, 46, 50, 46, 51, 47])
    .finished).tokens.map Token.text = ["5", ".", "x", "==", "=", "1.2", ".", "3", "/"] := by
  decide +kernel

end HamScript
