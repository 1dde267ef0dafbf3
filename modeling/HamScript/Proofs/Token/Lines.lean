/-
# Scanning line by line

A line feed ends every lexeme and comment before it, so a source that scans without a fault can be
followed by a line feed and another source: the tokens are those of the first and then those of the
second, moved down by the lines and on by the bytes of the first.
-/
import HamScript.Proofs.Syntax.Relocate
import HamScript.Proofs.Token.Scanning

namespace HamScript

open Lexeme (Gap IsLexeme StartsFraction Stops)
open Source (Glyph Position Span)

/-! ## Moving down -/

namespace Source.Position

/-- The position that many bytes on and that many lines down, in the same column. -/
def moveBy (bytes lines : Nat) (p : Position) : Position :=
  ⟨p.offset + bytes, p.line + lines, p.column⟩

theorem after_moveBy (bytes lines : Nat) (p : Position) (g : Glyph) :
    (p.moveBy bytes lines).after g = (p.after g).moveBy bytes lines := by
  unfold after moveBy
  split <;> simp only [mk.injEq, and_true] <;> omega

theorem line_after (p : Position) (g : Glyph) :
    (p.after g).line = p.line + if g.char = '\n' then 1 else 0 := by
  unfold after
  split <;> simp

/-- Lines are counted by line feeds. -/
theorem line_afterAll (p : Position) (gs : List Glyph) :
    (p.afterAll gs).line = p.line + Glyph.countFeeds gs := by
  induction gs generalizing p with
  | nil => simp
  | cons g gs ih =>
      rw [afterAll_cons, ih, line_after, Glyph.countFeeds_cons]
      split
      · simp only [Int.natCast_add, Int.natCast_one]
        omega
      · simp only [Int.add_zero, Nat.add_zero]

/-- Behind a source and a line feed everything is as at the start, but moved. -/
theorem after_feed_afterAll (gs : List Glyph) : (start.afterAll gs).after Glyph.feed =
    start.moveBy (Glyph.byteCount gs + 1) (1 + Glyph.countFeeds gs) := by
  have hafter : (start.afterAll gs).after Glyph.feed =
      ⟨(start.afterAll gs).offset + 1, (start.afterAll gs).line + 1, 1⟩ := rfl
  rw [hafter, offset_afterAll, line_afterAll]
  simp only [moveBy, start, mk.injEq, and_true]
  omega

end Source.Position

/-- How a division stops, moved. -/
def Scan.relocateStop (f : Position → Position) :
    Except ScanFault Position → Except ScanFault Position
  | .ok p => .ok (f p)
  | .error e => .error (e.relocate f)

section
variable {f : Position → Position} (hf : ∀ p g, (f p).after g = f (p.after g))
include hf

theorem Source.Position.afterAll_of_after (p : Position) (gs : List Glyph) :
    (f p).afterAll gs = f (p.afterAll gs) := by
  induction gs generalizing p with
  | nil => rfl
  | cons g gs ih => rw [afterAll_cons, hf, ih, afterAll_cons]

/-- A move that positions after characters follow takes divisions to divisions. -/
theorem Lexes.relocate {ending : Ending} {p : Position} {gs : List Glyph} {ts : List Token}
    {stop : Except ScanFault Position} (h : Lexes ending p gs ts stop) :
    Lexes ending (f p) gs (ts.map (Token.relocate f)) (Scan.relocateStop f stop) := by
  have hall := Position.afterAll_of_after hf
  induction h with
  | @done p gap hgap =>
      have hstop : Scan.relocateStop f (Scan.stopAt ending (p.afterAll gap)) =
          Scan.stopAt ending ((f p).afterAll gap) := by
        rw [hall]
        cases ending <;> rfl
      rw [hstop]
      exact .done hgap
  | @token p gap taken rest kind text ts stop hgap hlexeme _ ih =>
      rw [← hall] at ih
      have htoken : (Token.mk kind text (.ofGlyphs (p.afterAll gap) taken)).relocate f =
          ⟨kind, text, .ofGlyphs ((f p).afterAll gap) taken⟩ := by
        simp only [Token.relocate, Span.relocate, Span.ofGlyphs, hall]
      rw [List.map_cons, htoken]
      exact .token hgap hlexeme ih
  | @stray p gap rest g hgap hstray =>
      have hfault : Lexes ending (f p) (gap ++ g :: rest) [] _ := .stray hgap hstray
      simp only [hall] at hfault
      exact hfault
  | @unclosed p gap rest q hgap hq hrest =>
      have hfault : Lexes ending (f p) (gap ++ q :: rest) [] _ := .unclosed hgap hq hrest
      simp only [hall] at hfault
      exact hfault

end

/-! ## A line feed between two sources -/

namespace Lexeme

theorem Stops.append_feed {p : Char → Bool} {rest : List Glyph} (h : Stops p rest)
    (hp : p '\n' = false) (more : List Glyph) : Stops p (rest ++ Glyph.feed :: more) := by
  cases rest with
  | nil => exact hp
  | cons g rest => exact h

theorem startsFraction_append_feed {rest more : List Glyph}
    (h : StartsFraction (rest ++ Glyph.feed :: more)) : StartsFraction rest := by
  match rest, h with
  | [], h =>
      cases more with
      | nil => exact h
      | cons g more => exact absurd h.1 (by decide)
  | [point], h => exact absurd h.2 (by decide)
  | _ :: _ :: _, h => exact h

/-- A line feed continues no lexeme. -/
theorem IsLexeme.append_feed {kind : Kind} {text : String} {taken rest : List Glyph}
    (h : IsLexeme kind text taken rest) (more : List Glyph) :
    IsLexeme kind text taken (rest ++ Glyph.feed :: more) := by
  cases h with
  | mark _ hmark => exact .mark _ hmark
  | equal _ hg he => exact .equal _ hg he
  | notEqual _ hg he => exact .notEqual _ hg he
  | assign hg hstop => exact .assign hg (hstop.append_feed rfl more)
  | slash hg hstop => exact .slash hg (hstop.append_feed rfl more)
  | int hne hds hstop hfraction =>
      exact .int hne hds (hstop.append_feed rfl more) (mt startsFraction_append_feed hfraction)
  | float hne hds hpoint hne' hfs hstop =>
      exact .float hne hds hpoint hne' hfs (hstop.append_feed rfl more)
  | word hstart hpart hstop hkind =>
      exact .word hstart hpart (hstop.append_feed (by decide +kernel) more) hkind
  | string _ hq hbody hq' => exact .string _ hq hbody hq'

/-- Only a comment on the last line looks at what follows the gap. -/
theorem Gap.of_ne_nil {gap rest : List Glyph} (h : Gap gap rest) (hne : rest ≠ [])
    (rest' : List Glyph) : Gap gap rest' := by
  induction h with
  | nil => exact .nil rest'
  | blank hblank _ ih => exact .blank hblank (ih hne)
  | comment h₁ h₂ hbody hfeed _ ih => exact .comment h₁ h₂ hbody hfeed (ih hne)
  | lastComment => exact absurd rfl hne

/-- The line feed closes a comment that the end of the first source left open. -/
theorem Gap.append_feed {gap gap' rest rest' : List Glyph} (h : Gap gap rest) (hrest : rest = [])
    (h' : Gap gap' rest') : Gap (gap ++ Glyph.feed :: gap') rest' := by
  induction h with
  | nil => exact .blank rfl h'
  | blank hblank _ ih => exact .blank hblank (ih hrest)
  | comment h₁ h₂ hbody hfeed _ ih =>
      rw [List.append_assoc, List.cons_append]
      exact .comment h₁ h₂ hbody hfeed (ih hrest)
  | lastComment h₁ h₂ hbody => exact .comment h₁ h₂ hbody rfl h'

end Lexeme

namespace Lexes

variable {ending : Ending} {p q : Position} {as bs gap : List Glyph} {ts us : List Token}
  {stop : Except ScanFault Position}

/-- A source may begin with one more line that is a gap. -/
theorem gap_line (hgap : Gap gap [])
    (h : Lexes ending ((p.afterAll gap).after Glyph.feed) bs us stop) :
    Lexes ending p (gap ++ Glyph.feed :: bs) us stop := by
  generalize hp : (p.afterAll gap).after Glyph.feed = p' at h
  have hall : ∀ gs, p.afterAll (gap ++ Glyph.feed :: gs) = p'.afterAll gs := by
    intro gs
    rw [Position.afterAll_append, Position.afterAll_cons, hp]
  have hassoc : ∀ gs gs', gap ++ Glyph.feed :: (gs ++ gs') = gap ++ Glyph.feed :: gs ++ gs' := by
    intro gs gs'
    rw [List.append_assoc, List.cons_append]
  cases h with
  | done hgap' =>
      rw [← hall]
      exact .done (hgap.append_feed rfl hgap')
  | @token _ gap' taken rest kind text us stop hgap' hlexeme hrest =>
      rw [← hall] at hrest ⊢
      rw [hassoc] at hrest ⊢
      exact .token (hgap.append_feed rfl hgap') hlexeme hrest
  | stray hgap' hstray =>
      rw [← hall, hassoc]
      exact .stray (hgap.append_feed rfl hgap') hstray
  | unclosed hgap' hq hrest =>
      rw [← hall, ← hall, hassoc]
      exact .unclosed (hgap.append_feed rfl hgap') hq hrest

/-- The division of a source without a fault goes on with that of what follows a line feed. -/
theorem append_feed (h : Lexes .finished p as ts stop) (hstop : stop = .ok q)
    {stop' : Except ScanFault Position}
    (h' : Lexes ending (q.after Glyph.feed) bs us stop') :
    Lexes ending p (as ++ Glyph.feed :: bs) (ts ++ us) stop' := by
  induction h with
  | done hgap =>
      obtain rfl := Except.ok.inj hstop
      exact gap_line hgap h'
  | @token p gap taken rest kind text ts stop hgap hlexeme _ ih =>
      have hne : taken ++ rest ≠ [] := by
        simp [hlexeme.taken_ne_nil]
      rw [List.append_assoc, List.append_assoc, List.cons_append]
      exact .token (hgap.of_ne_nil hne _) (hlexeme.append_feed bs) (ih hstop)
  | stray | unclosed => exact nomatch hstop

/-- Tokens stand on the lines of their source. -/
theorem line_bounds (h : Lexes ending p as ts stop) {t : Token} (ht : t ∈ ts) :
    p.line ≤ t.span.first.line ∧ t.span.last.line ≤ p.line + Glyph.countFeeds as := by
  obtain ⟨before, taken, after, rfl, -, hspan⟩ := h.exists_lexeme ht
  have htaken : Glyph.countFeeds taken.dropLast ≤ Glyph.countFeeds taken :=
    (List.dropLast_sublist taken).countP_le
  rw [hspan, Span.ofGlyphs]
  simp only [Position.line_afterAll, Glyph.countFeeds_append]
  omega

end Lexes

/-- The scan of two sources with a line feed between them. -/
theorem Scan.ofGlyphs_append_feed {as : List Glyph} {ts : List Token} {p : Position}
    (h : Scan.ofGlyphs as .finished = ⟨ts, .ok p⟩) (bs : List Glyph) (ending : Ending) :
    let move := Position.moveBy (Glyph.byteCount as + 1) (1 + Glyph.countFeeds as)
    let scan := Scan.ofGlyphs bs ending
    Scan.ofGlyphs (as ++ Glyph.feed :: bs) ending =
      ⟨ts ++ scan.tokens.map (Token.relocate move), Scan.relocateStop move scan.stop⟩ := by
  intro move scan
  have has : Lexes .finished .start as ts (.ok p) := lexes_iff.mpr h
  have hbs : Lexes ending .start bs scan.tokens scan.stop := lexes_iff.mpr rfl
  have hmoved := hbs.relocate (f := move) (Position.after_moveBy _ _)
  have hstart : p.after Glyph.feed = move .start := by
    rw [has.stop_eq rfl]
    exact Position.after_feed_afterAll as
  rw [← hstart] at hmoved
  exact (has.append_feed rfl hmoved).readFrom_eq

end HamScript
