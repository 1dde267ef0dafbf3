/-
# String literals and their written form

Every text is the value of a string literal: between quotes all characters stand for themselves,
except for the quote and the backslash, which need a backslash in front.  A literal is written with
more escapes than that.  Characters that are not printable are written by a letter or by their
number, and of these escapes strings know only those of line feeds and tabs; any other one is read
back as the characters that it is written with.

So the written form of a literal is one string again, and it has the literal's value exactly if all
characters of the value are printable, line feeds or tabs.
-/
import HamScript.Proofs.Syntax.Parts
import HamScript.Proofs.Syntax.RoundTrip

namespace HamScript

open Grammar (Derives)
open Lexeme (Body IsLexeme)
open Source (Glyph Position Span)

/-! ## Every text is the value of a literal -/

namespace Text

/-- A character of a string, with a backslash only where it is needed. -/
def guarded (c : Char) : List Char :=
  if c = '"' ∨ c = '\\' then ['\\', c] else [c]

theorem body_guarded (cs : List Char) : Body ((cs.flatMap guarded).map Glyph.ofChar) cs := by
  induction cs with
  | nil => exact .nil
  | cons c cs ih =>
      rw [List.flatMap_cons, List.map_append, guarded]
      split
      next hc =>
        rcases hc with rfl | rfl
        · exact .pair rfl ih
        · exact .pair rfl ih
      next hc => exact .plain (not_or.mp hc).1 (not_or.mp hc).2 ih

/-- A text between quotes, with a backslash only where it is needed. -/
def enclosed (s : String) : String :=
  String.ofList ('"' :: (s.toList.flatMap guarded ++ ['"']))

theorem ofText_enclosed (s : String) : Glyph.ofText (enclosed s) = Glyph.ofChar '"' ::
    ((s.toList.flatMap guarded).map Glyph.ofChar ++ [Glyph.ofChar '"']) := by
  rw [enclosed, Glyph.ofText, String.toList_ofList, List.map_cons, List.map_append]
  rfl

end Text

/-- An enclosed text is one string, which stands for the text, and nothing else. -/
theorem Lexes.enclosed (s : String) :
    Lexes .finished .start (Glyph.ofText (Text.enclosed s))
      [⟨.string, s, .ofGlyphs .start (Glyph.ofText (Text.enclosed s))⟩]
      (.ok (Position.start.afterAll (Glyph.ofText (Text.enclosed s)))) := by
  have hlexeme : IsLexeme .string s (Glyph.ofText (Text.enclosed s)) [] := by
    have hstring := IsLexeme.string (q := Glyph.ofChar '"') [] rfl (Text.body_guarded s.toList)
      (rfl : (Glyph.ofChar '"').char = '"')
    rwa [String.ofList_toList, ← Text.ofText_enclosed] at hstring
  have hlexes : Lexes .finished .start ([] ++ (Glyph.ofText (Text.enclosed s) ++ [])) _ _ :=
    .token (.nil _) hlexeme (.done (.nil []))
  rwa [List.nil_append, List.nil_append, List.append_nil, Position.afterAll_nil,
    Position.afterAll_nil, Scan.stopAt] at hlexes

/-- Every text is the value of a string literal in a program. -/
theorem Expr.exists_parsed_string (s : String) : ∃ span, (Expr.string s span).Parsed := by
  have hliteral := Derives.string
    (t := ⟨.string, s, .ofGlyphs .start (Glyph.ofText (Text.enclosed s))⟩) rfl
  have hparse := Program.ofGlyphs_of_derives (Lexes.enclosed s) (Grammar.derives_single hliteral _)
  rw [← Glyph.ofBytes_toUTF8] at hparse
  exact ⟨_, _, _, _, hparse, List.mem_append_left _ (Expr.mem_parts_self _)⟩

/-! ## What a literal is read back as -/

/-- A quoted text by itself is scanned as one string. -/
theorem Scan.exists_of_quoted (s : String) :
    ∃ t p, Scan.ofGlyphs (Glyph.ofBytes (Text.quoted s).toUTF8.data.toList) .finished =
        ⟨[t], .ok p⟩ ∧
      t.kind = .string ∧ t.text = String.ofList (s.toList.flatMap Text.readBack) := by
  obtain ⟨_, -, ⟨t, rfl, hkind, htext⟩, hlexes⟩ :=
    (Spells.quotation (F := fun _ => True) s).lexes (p := .start) trivial (.done (.nil []))
  rw [List.append_nil, List.append_nil] at hlexes
  rw [Glyph.ofBytes_toUTF8]
  exact ⟨t, _, hlexes.readFrom_eq, hkind, htext⟩

/-- **String literals read back.**  The written form of a string literal, as UTF-8, is scanned as
one string, then the source ends.  The string has the value of the literal if and only if all
characters of the value are printable, line feeds or tabs; it always has the value in which the
other characters are replaced by their escapes. -/
theorem string_reads_back_iff (s : String) (span : Span) :
    ∃ t p, Scan.ofGlyphs (Glyph.ofBytes (Expr.string s span).render.toUTF8.data.toList) .finished =
        ⟨[t], .ok p⟩ ∧
      t.kind = .string ∧ t.text = String.ofList (s.toList.flatMap Text.readBack) ∧
      (t.text = s ↔ ∀ c ∈ s.toList, Text.isPrintable c = true ∨ c = '\n' ∨ c = '\t') := by
  rw [Expr.render]
  obtain ⟨t, p, hscan, hkind, htext⟩ := Scan.exists_of_quoted s
  refine ⟨t, p, hscan, hkind, htext, ?_⟩
  rw [htext, ← Text.readBack_eq_self_iff, ← String.toList_inj, String.toList_ofList]

/-- A carriage return in a literal is read back as a backslash and a letter. -/
theorem string_reads_back_changed :
    ∃ span, (Expr.string "\r" span).Parsed ∧
      ∃ t p, Scan.ofGlyphs (Glyph.ofBytes (Expr.string "\r" span).render.toUTF8.data.toList)
          .finished = ⟨[t], .ok p⟩ ∧
        t.kind = .string ∧ t.text = "\\r" ∧ t.text ≠ "\r" := by
  obtain ⟨span, hparsed⟩ := Expr.exists_parsed_string "\r"
  refine ⟨span, hparsed, ?_⟩
  rw [Expr.render]
  obtain ⟨t, p, hscan, hkind, htext⟩ := Scan.exists_of_quoted "\r"
  have hback : String.ofList ("\r".toList.flatMap Text.readBack) = "\\r" := by decide +kernel
  refine ⟨t, p, hscan, hkind, htext.trans hback, ?_⟩
  rw [htext, hback]
  decide

end HamScript
