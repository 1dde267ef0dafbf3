/-
# A place in the text of a document
-/
namespace HamScript.Yaml

/-! ## Characters -/

/-- Blanks within a line. -/
def isBlank (c : Char) : Bool :=
  c == ' ' || c == '\t'

/-- Line breaks.  Line and paragraph separators stay what they are, all other breaks are read as line
feeds (`unifyBreaks`). -/
def isBreak (c : Char) : Bool :=
  c == '\n' || c == '\u2028' || c == '\u2029'

/-- Blanks and line breaks. -/
def isWhite (c : Char) : Bool :=
  isBlank c || isBreak c

/-- Whether a text is at its end, at the end of a line or at a blank. -/
def startsBlank : List Char → Bool
  | [] => true
  | c :: _ => isWhite c

/-- Whether a text is at its end or at the end of a line. -/
def startsBreak : List Char → Bool
  | [] => true
  | c :: _ => isBreak c

/-- Whether a line starts with a mark between documents, three times the character `c`. -/
def startsMarker (c : Char) (cs : List Char) : Bool :=
  cs.take 3 == [c, c, c] && startsBlank (cs.drop 3)

/-- The characters of names. -/
def isNameChar (c : Char) : Bool :=
  c.isAlphanum || c == '_' || c == '-'

/-- Whether a character may stand in a document. -/
def isAllowed (c : Char) : Bool :=
  let n := c.toNat
  n == 0x09 || n == 0x0A || n == 0x0D || (0x20 ≤ n && n ≤ 0x7E) || n == 0x85 ||
    (0xA0 ≤ n && n ≤ 0xD7FF) || (0xE000 ≤ n && n ≤ 0xFFFD) || 0x10000 ≤ n

/-- Writes line breaks as line feeds, save line and paragraph separators. -/
def unifyBreaks : List Char → List Char
  | [] => []
  | '\r' :: '\n' :: cs => '\n' :: unifyBreaks cs
  | c :: cs => (if c = '\r' ∨ c = '\u0085' then '\n' else c) :: unifyBreaks cs

/-! ## Places -/

/-- A place in a text: what is still to be read, how much has been read, the number of its line from
one and of its column from zero. -/
structure Cursor where
  rest : List Char
  index : Nat
  line : Nat
  column : Nat
  deriving Repr

namespace Cursor

/-- The start of a text. -/
def start (cs : List Char) : Cursor := ⟨cs, 0, 1, 0⟩

/-- The place `n` characters on. -/
def skip (c : Cursor) : Nat → Cursor
  | 0 => c
  | n + 1 =>
    match c.rest with
    | [] => c
    | ch :: cs =>
      if isBreak ch then skip ⟨cs, c.index + 1, c.line + 1, 0⟩ n
      else skip ⟨cs, c.index + 1, c.line, c.column + 1⟩ n

/-- The next character. -/
def head? (c : Cursor) : Option Char :=
  c.rest.head?

/-- The start of the line after the end of the text. -/
def pastText (c : Cursor) : Cursor :=
  if c.column = 0 then c else { c with line := c.line + 1, column := 0 }

/-- The characters at a place that satisfy `p`, and the place after them. -/
def span (p : Char → Bool) (c : Cursor) : List Char × Cursor :=
  let cs := c.rest.takeWhile p
  (cs, c.skip cs.length)

/-- The place after the blanks. -/
def pastBlanks (c : Cursor) : Cursor :=
  (c.span isBlank).2

/-- The place after the rest of the line, of which nothing is left but blanks and a comment. -/
def pastLine? (c : Cursor) : Option Cursor :=
  let c := c.pastBlanks
  let c := if c.head? = some '#' then (c.span (!isBreak ·)).2 else c
  if startsBreak c.rest then some (c.skip 1) else none

end Cursor

end HamScript.Yaml
