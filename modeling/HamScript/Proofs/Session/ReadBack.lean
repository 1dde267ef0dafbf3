/-
# Values that are read back

Integers and texts have written forms that are programs, and a session that runs one of these gets
the value again, without printing anything and with nothing changed.

An integer is written in decimal.  There are no negative literals, so a minus sign before the digits
is an operator, which is applied when the program runs (`Expr.IsNumeral`).

A text is written between quotes, with a backslash before each quote and each backslash in it and
all other characters as they are (`Text.enclosed`).  The quote that closes the string is then the
last character of the source.
-/
import HamScript.Proofs.Session.Inlining
import HamScript.Proofs.Syntax.Quoting

namespace HamScript

open Grammar (Derives)
open Lexeme (Clear)
open Source (Glyph Position Span)

/-! ## Sources with one expression -/

namespace Session

/-- A source that is one expression gives its value, if the expression has one that does not depend
on the world and leaves the world as it is. -/
theorem evaluate_of_derives {gs : List Glyph} {ts : List Token} {p : Position} {tier : Nat}
    {e : Expr} {v : Value} (hlexes : Lexes .finished .start gs ts (.ok p))
    (he : Derives (.expr tier e) ts) (hv : ∀ invoke w, Eval.expr invoke globals e w = .value v w)
    (s : Session) (maxTurns : Nat) : s.evaluate maxTurns gs = ⟨.value v, "", [], s⟩ := by
  have hparse := Program.ofGlyphs_of_derives hlexes (Grammar.derives_single he p)
  have hstmt : Eval.stmt (Eval.invoke (s.limits maxTurns false) s.settings.maxDepth) maxTurns
      globals (.expr e ⟨Grammar.startOf ts, Grammar.endOf ts⟩) ⟨s.heap, "", []⟩ =
        .value (.next v) ⟨s.heap, "", []⟩ := by
    rw [Eval.stmt, Eval.bind_of_value (hv _ _)]
    rfl
  rw [evaluate_of_ok hparse, run, Eval.program, Eval.programFrom]
  exact congrArg s.conclude (Eval.bind_of_value hstmt)

end Session

/-! ## Integers -/

/-- The expression is how an integer is written: its literal, or the literal of its opposite after a
minus sign. -/
inductive Expr.IsNumeral : Int → Expr → Prop
  | literal (n : Nat) (span : Span) : IsNumeral n (.int n span)
  | opposite (n : Nat) (span whole : Span) : IsNumeral (-n) (.negate (.int n span) whole)

namespace Expr.IsNumeral

theorem eval {n : Int} {e : Expr} (h : IsNumeral n e) (invoke : Invoke) (scope : ScopeId)
    (w : World) : Eval.expr invoke scope e w = .value (.number (.int n)) w := by
  cases h with
  | literal n span => rw [Eval.expr]; rfl
  | opposite n span whole =>
      have hoperand : Eval.expr invoke scope (.int n span) w = .value (.number (.int n)) w := by
        rw [Eval.expr]
        rfl
      rw [Eval.expr, Eval.bind_of_value hoperand]
      rfl

/-- The decimal text of an integer is scanned and parsed as its numeral. -/
theorem spells (n : Int) :
    Spells Clear (Glyph.ofText (toString n)) fun ts =>
      ∃ e, IsNumeral n e ∧ Derives (.expr 4 e) ts := by
  cases n with
  | ofNat n =>
      refine (Spells.numeral n).mono ?_
      rintro line _ - ⟨t, rfl, hkind, hint⟩
      exact ⟨_, .literal n t.span, (Derives.int hkind hint).of_le (by decide)⟩
  | negSucc n =>
      change Spells Clear (Glyph.ofText ("-" ++ toString (n + 1))) _
      rw [Glyph.ofText_append]
      refine (spells_minus.append (Spells.numeral (n + 1)) fun _ _ => trivial).mono ?_
      rintro line _ - ⟨_, _, rfl, ⟨m, rfl, hm⟩, t, rfl, hkind, hint⟩
      exact ⟨_, .opposite (n + 1) t.span _,
        .negate hm ((Derives.int hkind hint).of_le (by decide))⟩

end Expr.IsNumeral

/-- The decimal text of an integer, run as a source, gives the integer. -/
theorem Session.evaluate_integer (s : Session) (maxTurns : Nat) (n : Int) :
    s.evaluate maxTurns (Glyph.ofText (toString n)) = ⟨.value (.number (.int n)), "", [], s⟩ := by
  obtain ⟨ts, -, ⟨e, he, hderives⟩, hlexes⟩ :=
    (Expr.IsNumeral.spells n).lexes (p := .start) Lexeme.clear_nil (.done (.nil []))
  rw [List.append_nil, List.append_nil] at hlexes
  exact evaluate_of_derives hlexes hderives (fun invoke w => he.eval invoke globals w) s maxTurns

/-! ## Texts -/

/-- An enclosed text, run as a source, gives the text. -/
theorem Session.evaluate_enclosed (s : Session) (maxTurns : Nat) (text : String) :
    s.evaluate maxTurns (Glyph.ofText (Text.enclosed text)) =
      ⟨.value (.string text), "", [], s⟩ := by
  refine evaluate_of_derives (Lexes.enclosed text) (.string rfl) (fun invoke w => ?_) s maxTurns
  rw [Eval.expr]
  rfl

/-- An enclosed text is one string, from the first byte of the source to the last. -/
theorem Scan.ofBytes_enclosed (text : String) :
    let bytes := (Text.enclosed text).toUTF8.data.toList
    ∃ t p, Scan.ofGlyphs (Glyph.ofBytes bytes) .finished = ⟨[t], .ok p⟩ ∧
      t.kind = .string ∧ t.text = text ∧
      t.span.first.offset = 0 ∧ t.span.last.offset + 1 = bytes.length ∧
      p.offset = bytes.length := by
  intro bytes
  have hglyphs : Glyph.ofBytes bytes = Glyph.ofText (Text.enclosed text) :=
    Glyph.ofBytes_toUTF8 _
  have hcount : Glyph.byteCount (Glyph.ofText (Text.enclosed text)) = bytes.length := by
    rw [← hglyphs, Glyph.byteCount_ofBytes]
  -- the closing quote is one byte long
  have hquote :
      Glyph.byteCount (Glyph.ofText (Text.enclosed text)).dropLast + 1 = bytes.length := by
    rw [← hcount, Text.ofText_enclosed, ← List.cons_append, List.dropLast_concat,
      Glyph.byteCount_append]
    rfl
  rw [hglyphs]
  refine ⟨_, _, (Lexes.enclosed text).readFrom_eq, rfl, rfl, rfl, ?_, ?_⟩
  · rw [← hquote, Source.Span.ofGlyphs, Position.offset_afterAll, Int.natCast_succ]
    exact congrArg (· + 1) (Int.zero_add _)
  · rw [← hcount, Position.offset_afterAll]
    exact Int.zero_add _

/-! ## Both -/

/-- **Reading back.**  In every session, the text of an integer is a source that gives the integer,
and a text between quotes, with a backslash before each quote and backslash in it, is a source that
gives the text.  Neither prints or changes anything.  The string takes up its whole source. -/
theorem Session.integers_and_texts_read_back (s : Session) (maxTurns : Nat) :
    (∀ n : Int,
      s.evaluate maxTurns
          (Glyph.ofBytes (s.heap.text (some (.number (.int n)))).toUTF8.data.toList) =
        ⟨.value (.number (.int n)), "", [], s⟩) ∧
    ∀ text : String,
      let bytes := (Text.enclosed text).toUTF8.data.toList
      s.evaluate maxTurns (Glyph.ofBytes bytes) = ⟨.value (.string text), "", [], s⟩ ∧
      ∃ t p, Scan.ofGlyphs (Glyph.ofBytes bytes) .finished = ⟨[t], .ok p⟩ ∧
        t.kind = .string ∧ t.text = text ∧
        t.span.first.offset = 0 ∧ t.span.last.offset + 1 = bytes.length ∧
        p.offset = bytes.length := by
  refine ⟨fun n => ?_, fun text => ⟨?_, Scan.ofBytes_enclosed text⟩⟩
  · rw [Glyph.ofBytes_toUTF8]
    exact s.evaluate_integer maxTurns n
  · rw [Glyph.ofBytes_toUTF8]
    exact s.evaluate_enclosed maxTurns text

end HamScript
