/-
# Scanning

Reading tokens off a source.  `step` reads one token at a position; `scan` reads them all.  A source
ends properly or because whoever supplied it failed; the failure is seen only where a token should
begin.
-/
import HamScript.Token.Lexeme

namespace HamScript

open Source (Glyph Position Span)

/-- How the characters of a source come to an end. -/
inductive Ending where
  /-- There are no more. -/
  | finished
  /-- The supplier of the characters failed with a reason. -/
  | failed (reason : String)
  deriving Repr, DecidableEq

/-- Why no token can be read. -/
inductive ScanFault where
  /-- A character that begins no token. -/
  | unrecognized (char : Char) (span : Span)
  /-- A string without its closing quote. -/
  | unterminated (span : Span)
  /-- The source failed. -/
  | broken (reason : String)
  deriving Repr, DecidableEq

namespace Source

/-- The position after the characters `gs` that stand from `p` on. -/
def Position.afterAll (p : Position) (gs : List Glyph) : Position :=
  gs.foldl Position.after p

/-- The span of the characters `gs` that stand from `p` on. -/
def Span.ofGlyphs (p : Position) (gs : List Glyph) : Span :=
  ⟨p, p.afterAll gs.dropLast⟩

end Source

namespace Token

/-- The outcome of reading one token. -/
inductive Step where
  /-- A token, how many characters it and the gap before it took, and what follows. -/
  | token (tok : Token) (size : Nat) (next : Position) (rest : List Glyph)
  /-- A fault, and what follows the characters that caused it. -/
  | fault (fault : ScanFault) (next : Position) (rest : List Glyph)
  /-- There was only a gap. -/
  | ended (next : Position)

/-- Reads one token from the characters `gs`, which stand from `p` on. -/
def step (p : Position) (gs : List Glyph) : Step :=
  let (gap, rest) := Lexeme.splitGap gs
  let start := p.afterAll gap
  match rest with
  | [] => .ended start
  | g :: gs' =>
    match Lexeme.cut g gs' with
    | .lexeme kind text taken rest' =>
      .token ⟨kind, text, .ofGlyphs start taken⟩ (gap.length + taken.length)
        (start.afterAll taken) rest'
    | .unknown g rest' => .fault (.unrecognized g.char (.single start)) (start.after g) rest'
    | .unterminated taken =>
      let stop := start.afterAll taken
      .fault (.unterminated ⟨start, stop⟩) stop []

end Token

/-- The tokens of a source, and how they come to an end: properly, at a position, or with a fault.
The `eof` token is not in the list. -/
structure Scan where
  tokens : List Token
  stop : Except ScanFault Position

namespace Scan

/-- Puts a token in front. -/
def push (t : Token) (s : Scan) : Scan :=
  { s with tokens := t :: s.tokens }

/-- How a scan stops at the end `p` of the characters. -/
def stopAt (ending : Ending) (p : Position) : Except ScanFault Position :=
  match ending with
  | .finished => .ok p
  | .failed reason => .error (.broken reason)

/-- Reads all tokens, after leaving out the first `skip` characters, which an earlier token took;
`p` is the position after these. -/
def readFrom (ending : Ending) : (skip : Nat) → Position → List Glyph → Scan
  | _, p, [] => ⟨[], stopAt ending p⟩
  | skip + 1, p, _ :: gs => readFrom ending skip p gs
  | 0, p, g :: gs =>
    match Token.step p (g :: gs) with
    | .token tok size next _ => (readFrom ending (size - 1) next gs).push tok
    | .fault fault _ _ => ⟨[], .error fault⟩
    | .ended next => ⟨[], stopAt ending next⟩

/-- All tokens of a source. -/
def ofGlyphs (gs : List Glyph) (ending : Ending) : Scan :=
  readFrom ending 0 .start gs

end Scan

end HamScript
