/-
# A stream of tokens with lookahead

A lexer stands at a place in a source and gives its tokens one by one.  One token can be looked at
before it is taken.  The first fault stays: from then on every request meets it again.
-/
import HamScript.Token.Buffered

namespace HamScript

open Source (Buffer Glyph Position)

/-- A lexer over a source. -/
structure Lexer where
  /-- The place of the next character that has not been read. -/
  buffer : Buffer
  ending : Ending
  /-- The token that was looked at and not yet taken. -/
  peeked : Option Token
  /-- The first fault that was met. -/
  fault : Option ScanFault

namespace Lexer

/-- A lexer at the beginning of a source. -/
def start (gs : List Glyph) (ending : Ending) : Lexer :=
  ⟨.start gs, ending, none, none⟩

/-- The position of the next character that has not been read. -/
def position (l : Lexer) : Position :=
  l.buffer.position

/-- The fault of a buffer that has forgotten a character which is needed again. -/
def forgotten : ScanFault :=
  .broken "backup without a preceding read"

/-- Reads the next token from the characters. -/
def advance (l : Lexer) : Except ScanFault Token × Lexer :=
  match Token.read l.ending l.buffer with
  | some (.ok tok, buffer) => (.ok tok, { l with buffer })
  | some (.error fault, buffer) => (.error fault, { l with buffer, fault := some fault })
  | none => (.error forgotten, { l with fault := some forgotten })

/-- Takes the next token. -/
def lex (l : Lexer) : Except ScanFault Token × Lexer :=
  match l.peeked, l.fault with
  | some tok, _ => (.ok tok, { l with peeked := none })
  | none, some fault => (.error fault, l)
  | none, none => l.advance

/-- Looks at the next token without taking it. -/
def peek (l : Lexer) : Except ScanFault Token × Lexer :=
  match l.peeked with
  | some tok => (.ok tok, l)
  | none =>
    match l.lex with
    | (.ok tok, l') => (.ok tok, { l' with peeked := some tok })
    | (.error fault, l') => (.error fault, l')

/-- Is the next token of one of the kinds?  No, if there is a fault in its place. -/
def peekIs (kinds : List Kind) (l : Lexer) : Bool × Lexer :=
  match l.peek with
  | (.ok tok, l') => (kinds.contains tok.kind, l')
  | (.error _, l') => (false, l')

end Lexer

end HamScript
