/-
# Lexemes

What a token looks like in the source, without its position.  A source begins with a gap of blanks
and comments, which `splitGap` takes off; what follows is cut by `cut` into the first lexeme and the
rest.  Gap, lexeme and rest together are the source again: nothing is lost and nothing is added.
-/
import HamScript.Text.Blank
import HamScript.Text.Digit
import HamScript.Text.Letter
import HamScript.Token.Basic

namespace HamScript.Lexeme

open Source (Glyph)

/-! ## Character classes -/

/-- May a name begin with the character? -/
def isNameStart (c : Char) : Bool :=
  c == '_' || Text.isLetter c

/-- May a name go on with the character? -/
def isNamePart (c : Char) : Bool :=
  isNameStart c || Text.isDecimalDigit c

/-- Do the characters begin with `c`? -/
def startsWith (c : Char) (gs : List Glyph) : Bool :=
  match gs with
  | g :: _ => g.char == c
  | [] => false

/-- Do the characters begin with a digit? -/
def startsWithDigit (gs : List Glyph) : Bool :=
  match gs with
  | g :: _ => Text.isDecimalDigit g.char
  | [] => false

/-! ## Gaps -/

/-- Takes off blanks and comments.  Inside a comment everything up to and with the next line feed
belongs to the gap. -/
def splitGapFrom (inComment : Bool) : List Glyph → List Glyph × List Glyph
  | [] => ([], [])
  | g :: gs =>
    if inComment then
      let (gap, rest) := splitGapFrom (g.char != '\n') gs
      (g :: gap, rest)
    else if Text.isBlank g.char then
      let (gap, rest) := splitGapFrom false gs
      (g :: gap, rest)
    else if g.char == '/' && startsWith '/' gs then
      let (gap, rest) := splitGapFrom true gs
      (g :: gap, rest)
    else ([], g :: gs)

/-- The gap at the front of a source and what follows it. -/
def splitGap (gs : List Glyph) : List Glyph × List Glyph :=
  splitGapFrom false gs

/-! ## Strings -/

/-- The characters that a backslash and the character `c` stand for.  A pair without a meaning of
its own stands for both its characters. -/
def unescape (c : Char) : List Char :=
  match c with
  | 'n' => ['\n']
  | 't' => ['\t']
  | '"' => ['"']
  | '\\' => ['\\']
  | _ => ['\\', c]

/-- The part of a string after its opening quote. -/
structure StringBody where
  /-- What the string stands for. -/
  value : List Char
  /-- The characters up to and with the closing quote. -/
  taken : List Glyph
  rest : List Glyph

/-- Puts characters of the source in front of a body. -/
def StringBody.push (value : List Char) (taken : List Glyph) (b : StringBody) : StringBody :=
  { b with value := value ++ b.value, taken := taken ++ b.taken }

/-- Reads a string after its opening quote; `none` if no quote closes it. -/
def stringBody? : List Glyph → Option StringBody
  | [] => none
  | g :: gs =>
    if g.char = '"' then some ⟨[], [g], gs⟩
    else if g.char = '\\' then
      match gs with
      | [] => none
      | e :: gs' => (stringBody? gs').map (.push (unescape e.char) [g, e])
    else (stringBody? gs).map (.push [g.char] [g])

/-! ## Cutting off a lexeme -/

/-- The first lexeme of a source that begins with no gap. -/
inductive Cut where
  /-- A lexeme of a kind, the text it stands for, its characters and what follows them. -/
  | lexeme (kind : Kind) (text : String) (taken rest : List Glyph)
  /-- A character that begins no lexeme. -/
  | unknown (g : Glyph) (rest : List Glyph)
  /-- A string that is not closed takes all the rest. -/
  | unterminated (taken : List Glyph)

/-- A lexeme that stands for its own characters. -/
def Cut.plain (kind : Kind) (taken rest : List Glyph) : Cut :=
  .lexeme kind (Glyph.text taken) taken rest

/-- A mark that an equals sign may follow: `double` with it, `alone` without. -/
def cutPair (g : Glyph) (gs : List Glyph) (double : Kind) (alone : Cut) : Cut :=
  match gs with
  | e :: rest => if e.char = '=' then .plain double [g, e] rest else alone
  | [] => alone

/-- A number.  A point belongs to it if a digit follows, so that `5.sum(1)` is a call on `5`. -/
def cutNumber (gs : List Glyph) : Cut :=
  let isDigit := fun g : Glyph => Text.isDecimalDigit g.char
  let whole := gs.takeWhile isDigit
  match gs.dropWhile isDigit with
  | point :: rest =>
    if point.char == '.' && startsWithDigit rest then
      .plain .float (whole ++ point :: rest.takeWhile isDigit) (rest.dropWhile isDigit)
    else .plain .int whole (point :: rest)
  | [] => .plain .int whole []

/-- A name or a reserved word. -/
def cutName (gs : List Glyph) : Cut :=
  let isPart := fun g : Glyph => isNamePart g.char
  let taken := gs.takeWhile isPart
  .plain ((Kind.ofWord? (Glyph.text taken)).getD .ident) taken (gs.dropWhile isPart)

/-- A string, from its opening quote `g` on. -/
def cutString (g : Glyph) (gs : List Glyph) : Cut :=
  match stringBody? gs with
  | some body => .lexeme .string (String.ofList body.value) (g :: body.taken) body.rest
  | none => .unterminated (g :: gs)

/-- Cuts the first lexeme off the source `g :: gs`, which begins with no gap. -/
def cut (g : Glyph) (gs : List Glyph) : Cut :=
  match Kind.ofMark? g.char with
  | some kind => .plain kind [g] gs
  | none =>
    if g.char = '=' then cutPair g gs .equal (.plain .assign [g] gs)
    else if g.char = '!' then cutPair g gs .notEqual (.unknown g gs)
    else if g.char = '/' then .plain .slash [g] gs
    else if g.char = '"' then cutString g gs
    else if Text.isDecimalDigit g.char then cutNumber (g :: gs)
    else if isNameStart g.char then cutName (g :: gs)
    else .unknown g gs

end HamScript.Lexeme
