/-
# Writing scalars

A text is written plain where it reads back as itself that way, in single quotes where only its
punctuation forbids that, and in double quotes where it would read back as something other than
text or holds characters that have to be escaped.  A text of several lines becomes a literal block.

A line is broken at a blank once it is longer than `lineWidth`; reading folds it again.  Line and
paragraph separators break lines by themselves.
-/
import HamScript.Yaml.Scalar
import HamScript.Yaml.Text

namespace HamScript.Yaml

/-! ## Which style fits -/

/-- The ways to write a scalar. -/
inductive Style where
  | plain | single | double | literal
  deriving Repr, DecidableEq

/-- Whether a character can stand in a document as it is, outside double quotes. -/
def isVisible (c : Char) : Bool :=
  let n := c.toNat
  n == 0x0A || (0x20 ≤ n && n ≤ 0x7E) || (0xA0 ≤ n && n ≤ 0xD7FF) ||
    (0xE000 ≤ n && n ≤ 0xFFFD && n != 0xFEFF)

/-- Whether a text goes on with a blank, or ends. -/
def blankNext : List Char → Bool
  | [] => true
  | c :: _ => isBlank c

/-- Whether the inside of a text looks like the colon after a key or like a comment.  `afterBlank`
says what came before. -/
def holdsMark (afterBlank : Bool) : List Char → Bool
  | [] => false
  | c :: cs =>
    (c == ':' && blankNext cs) || (c == '#' && afterBlank) || holdsMark (isBlank c) cs

/-- Whether a text starts like something that is not a plain scalar. -/
def startsMark : List Char → Bool
  | [] => false
  | c :: cs =>
    (c :: cs).take 3 == ['-', '-', '-'] || (c :: cs).take 3 == ['.', '.', '.'] ||
      reservedStarts.contains c || ((c == '?' || c == ':' || c == '-') && blankNext cs)

/-- Whether a text can be written plain, if it means its text. -/
def fitsPlain (cs : List Char) : Bool :=
  cs.head? != some ' ' && cs.getLast? != some ' ' && !cs.any isBreak && !startsMark cs &&
    !holdsMark false cs

/-- Whether a line break follows a blank somewhere. -/
def blankBeforeBreak : List Char → Bool
  | [] => false
  | c :: cs => (c == ' ' && cs.head?.any isBreak) || blankBeforeBreak cs

/-- Whether a blank follows a line break somewhere. -/
def blankAfterBreak : List Char → Bool
  | [] => false
  | c :: cs => (isBreak c && cs.head? == some ' ') || blankAfterBreak cs

/-- Whether a text reads back as text when it is written plain. -/
def meansText (text : String) : Bool :=
  Meaning.ofPlain text == .str && !isSexagesimal text

/-- The style for a text. -/
def Style.of (text : String) : Style :=
  let cs := text.toList
  if !cs.all isVisible || blankBeforeBreak cs then .double
  else if cs.contains '\n' then
    if cs.getLast? == some ' ' then .double else .literal
  else if !meansText text || blankAfterBreak cs then .double
  else if fitsPlain cs then .plain
  else .single

/-! ## One line or more -/

/-- The column after which a line is broken at the next blank. -/
def lineWidth : Nat := 80

/-- How far the lines of a value are indented. -/
def valueIndent : List Char := [' ', ' ']

/-- Writes characters by `piece`, breaking long lines at single blanks.  Where blanks can be escaped,
more of them may be broken too, and the one after the break is escaped.  Where they cannot, line
breaks stand as they are, and the line after them is indented; `fresh` says that it starts. -/
def broken (piece : Char → List Char) (escapes : Bool) :
    (column : Nat) → (afterBlank fresh : Bool) → List Char → List Char
  | _, _, _, [] => []
  | column, afterBlank, fresh, c :: cs =>
    if c = ' ' then
      let next := cs.head?
      if !afterBlank && decide (lineWidth < column) && next.isSome &&
          (escapes || next != some ' ') then
        if next = some ' ' then
          '\n' :: valueIndent ++ '\\' :: broken piece escapes (valueIndent.length + 1) true false cs
        else '\n' :: valueIndent ++ broken piece escapes valueIndent.length true false cs
      else ' ' :: broken piece escapes (column + 1) true false cs
    else if isBreak c && !escapes then c :: broken piece escapes 0 false true cs
    else
      let written := (if fresh then valueIndent else []) ++ piece c
      written ++ broken piece escapes (column + written.length) false false cs

/-- A character in single quotes. -/
def singlePiece (c : Char) : List Char :=
  if c = '\'' then ['\'', '\''] else [c]

/-- `n` in upper-case hexadecimal digits, so many of them. -/
def hexOf : (digits : Nat) → Nat → List Char
  | 0, _ => []
  | d + 1, n => hexOf d (n / 16) ++ [((Nat.digitChar (n % 16)).toUpper)]

/-- The letter that a character is escaped by. -/
def escapeLetter? (c : Char) : Option Char :=
  [('\x00', '0'), ('\x07', 'a'), ('\x08', 'b'), ('\t', 't'), ('\n', 'n'), ('\x0b', 'v'),
   ('\x0c', 'f'), ('\r', 'r'), ('\x1b', 'e'), ('"', '"'), ('\\', '\\'), ('\u0085', 'N'),
   ('\u00a0', '_'), ('\u2028', 'L'), ('\u2029', 'P')].lookup c

/-- The escape of a character. -/
def escaped (c : Char) : List Char :=
  match escapeLetter? c with
  | some l => ['\\', l]
  | none =>
    if c.toNat ≤ 0xFF then '\\' :: 'x' :: hexOf 2 c.toNat
    else if c.toNat ≤ 0xFFFF then '\\' :: 'u' :: hexOf 4 c.toNat
    else '\\' :: 'U' :: hexOf 8 c.toNat

/-- A character in double quotes. -/
def doublePiece (c : Char) : List Char :=
  if isVisible c && !isBreak c && c != '"' && c != '\\' then [c] else escaped c

/-- What stands between double quotes for a text.  One that starts with a byte order mark is escaped
as a whole. -/
def doubleBody (column : Nat) (cs : List Char) : List Char :=
  if cs.head? = some '\uFEFF' then cs.flatMap escaped else broken doublePiece true column false false cs

/-! ## Literal blocks -/

/-- What stands after the bar of a literal block. -/
def blockMarks (cs : List Char) : List Char :=
  (if cs.head?.any fun c => c == ' ' || isBreak c then ['2'] else []) ++
    match cs.reverse with
    | [] => ['-']
    | c :: before =>
      if !isBreak c then ['-'] else if before.head?.all isBreak then ['+'] else []

/-- The lines of a literal block, from the start of a line on if `fresh`. -/
def blockBody (fresh : Bool) : List Char → List Char
  | [] => []
  | c :: cs =>
    if isBreak c then c :: blockBody true cs
    else (if fresh then valueIndent else []) ++ c :: blockBody false cs

/-! ## Entries -/

/-- Writes a text as a value that starts in a column. -/
def writeScalar (column : Nat) (text : String) : List Char :=
  let cs := text.toList
  match Style.of text with
  | .plain => broken (fun c => [c]) false column false false cs
  | .single => '\'' :: broken singlePiece false (column + 1) false false cs ++ ['\'']
  | .double => '"' :: doubleBody (column + 1) cs ++ ['"']
  | .literal => '|' :: blockMarks cs ++ '\n' :: blockBody true cs

/-- The line break after a text that is written as a value.  A literal block may bring its own. -/
def lineEnd (text : String) : List Char :=
  if Style.of text = .literal ∧ text.toList.getLast?.any isBreak then [] else ['\n']

/-- Writes the entry of a key with a text. -/
def writeText (key text : String) : List Char :=
  let head := key.toList ++ [':', ' ']
  head ++ writeScalar head.length text ++ lineEnd text

/-- Writes the entry of a key with an integer. -/
def writeInt (key : String) (n : Int) : List Char :=
  key.toList ++ [':', ' '] ++ (toString n).toList ++ ['\n']

end HamScript.Yaml
