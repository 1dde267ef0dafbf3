/-
# Positions and spans in a source

A position is a coordinate of the boundary before a character: how many bytes precede it, its line
and its column, both counted from 1.  Columns count characters.  The name of the file is no part of
a position: whoever reports one supplies the name.
-/
import HamScript.Source.Glyph

namespace HamScript.Source

/-- A coordinate in a source. -/
structure Position where
  offset : Int
  line : Int
  column : Int
  deriving Repr, DecidableEq, Inhabited

namespace Position

/-- Where every source begins. -/
def start : Position :=
  ⟨0, 1, 1⟩

/-- The position after the character `g` that stands at `p`. -/
def after (p : Position) (g : Glyph) : Position :=
  if g.char = '\n' then ⟨p.offset + g.size, p.line + 1, 1⟩
  else ⟨p.offset + g.size, p.line, p.column + 1⟩

/-- The name a report uses for a file: a nameless one is `<unknown>`. -/
def fileText (file : String) : String :=
  if file = "" then "<unknown>" else file

/-- A position as reports show it, `file:line:column`. -/
def text (file : String) (p : Position) : String :=
  fileText file ++ ":" ++ toString p.line ++ ":" ++ toString p.column

end Position

/-- A stretch of a source, from its first character to its last one. -/
structure Span where
  first : Position
  last : Position
  deriving Repr, DecidableEq, Inhabited

namespace Span

/-- The span of the one character at `p`. -/
def single (p : Position) : Span :=
  ⟨p, p⟩

/-- The span from the beginning of `a` to the end of `b`. -/
def join (a b : Span) : Span :=
  ⟨a.first, b.last⟩

/-- A span as reports show it, `file:line:column-line:column`. -/
def text (file : String) (s : Span) : String :=
  s.first.text file ++ "-" ++ toString s.last.line ++ ":" ++ toString s.last.column

end Span

end HamScript.Source
