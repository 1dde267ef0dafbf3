/-
# Scalars in the text of a document

A scalar is written plain, in single quotes, in double quotes, or as a block.  A scalar that runs
over several lines is folded: blanks around a line break go away, a single line feed becomes a
blank, and of several breaks in a row the first one goes away if it is a line feed.  The lines of a
block are folded only after `>`, and there only between lines that do not start with a blank.
-/
import HamScript.Decimal.Word
import HamScript.Yaml.Cursor

namespace HamScript.Yaml

open Decimal (digitIn? naturalIn?)

/-- What line breaks in a row become when lines are folded. -/
def foldedBreaks : List Char → List Char
  | ['\n'] => [' ']
  | '\n' :: bs => bs
  | bs => bs

/-! ## Plain scalars -/

/-- The characters that are never part of a plain scalar within brackets. -/
def flowMarks : List Char := [',', '?', '[', ']', '{', '}']

/-- The characters that no plain scalar starts with. -/
def reservedStarts : List Char :=
  [',', '[', ']', '{', '}', '#', '&', '*', '!', '|', '>', '\'', '"', '%', '@', '\x60']

/-- Whether a plain scalar may start with `c`, which `after` follows. -/
def startsPlain (flow : Bool) (c : Char) (after : List Char) : Bool :=
  if isWhite c || reservedStarts.contains c then false
  else if c == '-' then !after.head?.any isBlank
  else if c == '?' || c == ':' then !flow && !startsBlank after
  else true

/-- The characters up to a blank, to the colon after a key, or to a mark within brackets. -/
def plainWord (flow : Bool) : List Char → List Char
  | [] => []
  | c :: cs =>
    if isWhite c || (c == ':' && startsBlank cs) || (flow && flowMarks.contains c) then []
    else c :: plainWord flow cs

/-- The white space between two words of a plain scalar, as it is read. -/
def foldedWhite (white : List Char) : List Char :=
  match white.filter isBreak with
  | [] => white
  | breaks => foldedBreaks breaks

/-- How far the text after some white space with a line break in it is indented. -/
def indentAfter (white : List Char) : Nat :=
  (white.reverse.takeWhile (!isBreak ·)).length

/-- Whether white space has a tab within the first `indent` columns of a line.  The first line does
not count; `column` is none there. -/
def tabIndented (indent : Nat) : (column : Option Nat) → List Char → Bool
  | _, [] => false
  | column, c :: cs =>
    if isBreak c then tabIndented indent (some 0) cs
    else (c == '\t' && column.any (· < indent)) || tabIndented indent (column.map (· + 1)) cs

/-- Whether a plain scalar goes on after some white space. -/
def goesOn (flow : Bool) (indent : Nat) (white rest : List Char) : Bool :=
  !white.isEmpty && !(plainWord flow rest).isEmpty && rest.head? != some '#' &&
    (!white.any isBreak ||
      ((flow || decide (indent ≤ indentAfter white)) &&
        !(indentAfter white == 0 && (startsMarker '-' rest || startsMarker '.' rest))))

/-- What is read of a plain scalar: its text, the length of what it is written as with the white
space after it, and whether that space has a line break. -/
structure PlainText where
  text : List Char
  length : Nat
  endsLine : Bool
  deriving Repr

/-- The words of a plain scalar after the first, folded.  Lines that go on are indented by `indent`
or more.  The first argument bounds the number of words. -/
def plainMore (flow : Bool) (indent : Nat) : Nat → List Char → Option PlainText
  | 0, _ => none
  | n + 1, cs =>
    let white := cs.takeWhile isWhite
    let rest := cs.drop white.length
    if tabIndented indent none white then none
    else if goesOn flow indent white rest then
      let word := plainWord flow rest
      (plainMore flow indent n (rest.drop word.length)).map fun more =>
        { more with
          text := foldedWhite white ++ word ++ more.text
          length := white.length + word.length + more.length }
    else some ⟨[], white.length, white.any isBreak⟩

/-- Reads a plain scalar whose first word has at least one character. -/
def plainText (flow : Bool) (indent : Nat) (cs : List Char) : Option PlainText :=
  let word := plainWord flow cs
  (plainMore flow indent (cs.length + 1) (cs.drop word.length)).map fun more =>
    { more with text := word ++ more.text, length := word.length + more.length }

/-! ## Quoted scalars -/

/-- A character of a quoted scalar. -/
inductive Piece where
  /-- It stands there itself. -/
  | raw (c : Char)
  /-- An escape stands for it. -/
  | made (c : Char)
  /-- An escaped line break. -/
  | joined
  deriving Repr, DecidableEq

/-- The line breaks since the last character: those after a line, or those after an escaped break. -/
inductive Breaks where
  | folded (breaks : List Char)
  | kept (breaks : List Char)
  deriving Repr, DecidableEq

namespace Breaks

/-- One more line break. -/
def add (c : Char) : Breaks → Breaks
  | folded bs => folded (bs ++ [c])
  | kept bs => kept (bs ++ [c])

/-- What line breaks are read as. -/
def text : Breaks → List Char
  | folded bs => foldedBreaks bs
  | kept bs => bs

end Breaks

mutual

/-- Folds the lines of a quoted scalar; `blanks` are those that have just been read. -/
def foldPieces (blanks : List Char) : List Piece → List Char
  | [] => blanks
  | .raw c :: ps =>
    if isBreak c then foldAfterBreaks (.folded [c]) ps
    else if isBlank c then foldPieces (blanks ++ [c]) ps
    else blanks ++ c :: foldPieces [] ps
  | .made c :: ps => blanks ++ c :: foldPieces [] ps
  | .joined :: ps => blanks ++ foldAfterBreaks (.kept []) ps

/-- The same at the start of a line. -/
def foldAfterBreaks (breaks : Breaks) : List Piece → List Char
  | [] => breaks.text
  | .raw c :: ps =>
    if isBreak c then foldAfterBreaks (breaks.add c) ps
    else if isBlank c then foldAfterBreaks breaks ps
    else breaks.text ++ c :: foldPieces [] ps
  | .made c :: ps => breaks.text ++ c :: foldPieces [] ps
  | .joined :: ps => breaks.text ++ foldAfterBreaks (.kept []) ps

end

/-- Whether a line within a quoted scalar starts with a mark between documents.  What closes the
scalar is no blank. -/
def holdsMarker : List Char → Bool
  | [] => false
  | c :: cs =>
    (isBreak c && !(cs.drop 3).isEmpty && (startsMarker '-' cs || startsMarker '.' cs)) ||
      holdsMarker cs

/-- The pieces of a scalar in single quotes up to the closing one, and their length with it. -/
def singlePieces : List Char → Option (List Piece × Nat)
  | [] => none
  | '\'' :: '\'' :: cs => (singlePieces cs).map fun (ps, n) => (.made '\'' :: ps, n + 2)
  | c :: cs =>
    if c = '\'' then some ([], 1)
    else (singlePieces cs).map fun (ps, n) => (.raw c :: ps, n + 1)

/-- The characters that are escaped by one letter. -/
def escapeLetters : List (Char × Char) :=
  [('0', '\x00'), ('a', '\x07'), ('b', '\x08'), ('t', '\t'), ('\t', '\t'), ('n', '\n'),
   ('v', '\x0b'), ('f', '\x0c'), ('r', '\r'), ('e', '\x1b'), (' ', ' '), ('"', '"'),
   ('\'', '\''), ('\\', '\\'), ('N', '\u0085'), ('_', '\u00a0'), ('L', '\u2028'),
   ('P', '\u2029')]

/-- How many digits follow the letter of an escape by number. -/
def escapeDigits : Char → Option Nat
  | 'x' => some 2
  | 'u' => some 4
  | 'U' => some 8
  | _ => none

/-- The character with a number in hexadecimal digits. -/
def numberedChar? (digits : List Char) : Option Char := do
  let n ← naturalIn? 16 digits
  if n.isValidChar then some (Char.ofNat n) else none

/-- What an escape stands for, given what follows the backslash, and the length of that. -/
def escape? : List Char → Option (Piece × Nat)
  | [] => none
  | c :: cs =>
    if isBreak c then some (.joined, 1)
    else
      match escapeLetters.lookup c with
      | some made => some (.made made, 1)
      | none => do
        let n ← escapeDigits c
        if cs.length < n then none
        else some (.made (← numberedChar? (cs.take n)), n + 1)

/-- The pieces of a scalar in double quotes up to the closing one, and their length with it.  The
first argument bounds their number. -/
def doublePieces : Nat → List Char → Option (List Piece × Nat)
  | _, [] | 0, _ => none
  | k + 1, c :: cs =>
    if c = '"' then some ([], 1)
    else if c = '\\' then do
      let (piece, n) ← escape? cs
      let (ps, m) ← doublePieces k (cs.drop n)
      some (piece :: ps, n + m + 1)
    else (doublePieces k cs).map fun (ps, n) => (.raw c :: ps, n + 1)

/-- Reads a scalar in quotes, of which the text starts with the opening one.  Gives its text and the
length of what it is written as. -/
def quotedText : List Char → Option (List Char × Nat)
  | [] => none
  | q :: cs => do
    let (pieces, n) ← if q = '\'' then singlePieces cs else doublePieces cs.length cs
    if holdsMarker (cs.take n) then none else some (foldPieces [] pieces, n + 1)

/-! ## Blocks -/

/-- What becomes of the line breaks at the end of a block. -/
inductive Chomping where
  | strip | clip | keep
  deriving Repr, DecidableEq

/-- What the first line of a block says: how much further than its node the block is indented, if
that is said, and what becomes of its last line breaks. -/
structure BlockHeader where
  indent : Option Nat
  chomping : Chomping
  deriving Repr

/-- The sign for what becomes of the last line breaks. -/
def chompingOf? : Char → Option Chomping
  | '-' => some .strip
  | '+' => some .keep
  | _ => none

/-- The header of a block after its first character, and the length of the header.  A sign and a
digit stand there in either order; the digit is not zero. -/
def blockHeader? (cs : List Char) : Option (BlockHeader × Nat) :=
  let digit? (c : Char) : Option Nat := digitIn? 10 c
  let header : BlockHeader × Nat :=
    match cs with
    | [] => (⟨none, .clip⟩, 0)
    | a :: rest =>
      match chompingOf? a, digit? a with
      | some chomping, _ =>
        let indent := rest.head?.bind digit?
        (⟨indent, chomping⟩, if indent.isSome then 2 else 1)
      | none, some n =>
        let chomping := rest.head?.bind chompingOf?
        (⟨some n, chomping.getD .clip⟩, if chomping.isSome then 2 else 1)
      | none, none => (⟨none, .clip⟩, 0)
  if header.1.indent = some 0 then none else some header

/-- Empty lines of a block: their breaks, the furthest column reached in them or in the line after
them, and the place where that line is indented. -/
structure EmptyLines where
  breaks : List Char
  furthest : Nat
  next : Cursor
  deriving Repr

/-- Reads the empty lines of a block indented by `indent`, which is none as long as that is to be
found out.  No tab may stand in the indentation.  The first argument bounds the number of lines. -/
def emptyLines (indent : Option Nat) : Nat → Cursor → Option EmptyLines
  | 0, _ => none
  | n + 1, c =>
    let blanks := (c.rest.takeWhile (· = ' ')).length
    let c := c.skip (indent.elim blanks fun k => min blanks (k - c.column))
    match c.rest with
    | [] => some ⟨[], c.column, c⟩
    | ch :: _ =>
      if ch = '\t' ∧ indent.all (c.column < ·) then none
      else if isBreak ch then
        (emptyLines indent n (c.skip 1)).map fun more =>
          ⟨ch :: more.breaks, max c.column more.furthest, more.next⟩
      else some ⟨[], c.column, c⟩

/-- What stands between two lines of a block: the break of the first, the breaks of the empty lines
after it, and whether the first line starts with a blank. -/
structure BlockGap where
  lineBreak : List Char
  empty : List Char
  afterBlank : Bool
  deriving Repr

/-- The text between two lines of a block.  In a folded block a line feed between lines that do not
start with a blank becomes a blank, or goes away before empty lines. -/
def BlockGap.text (g : BlockGap) (folded beforeBlank : Bool) : List Char :=
  if folded && g.lineBreak == ['\n'] && !g.afterBlank && !beforeBlank then
    foldedBreaks (g.lineBreak ++ g.empty)
  else g.lineBreak ++ g.empty

/-- The end of a block's text, given what follows its last line. -/
def BlockGap.last (g : BlockGap) : Chomping → List Char
  | .strip => []
  | .clip => g.lineBreak
  | .keep => g.lineBreak ++ g.empty

/-- Reads the lines of a block indented by `indent`, and gives the place after them.  The first
argument bounds the number of lines. -/
def blockLines (folded : Bool) (chomping : Chomping) (indent : Nat) :
    Nat → BlockGap → Cursor → Option (List Char × Cursor)
  | 0, _, _ => none
  | n + 1, gap, c =>
    if c.column = indent ∧ !c.rest.isEmpty then do
      let startsWithBlank := c.head?.any isBlank
      let (line, c) := c.span (!isBreak ·)
      let lineBreak := c.head?.toList
      let empty ← emptyLines (some indent) (c.rest.length + 1) (c.skip 1)
      let (more, next) ←
        blockLines folded chomping indent n ⟨lineBreak, empty.breaks, startsWithBlank⟩ empty.next
      some (gap.text folded startsWithBlank ++ line ++ more, next)
    else some (gap.last chomping, c)

/-- Reads a block at its first character, in a node that is indented by `parent`, none at the top.
A block that does not say how far it is indented is as far as its first line with text, but no less
than the empty lines before it and no less than what belongs to its node. -/
def blockText (parent : Option Nat) (c : Cursor) : Option (List Char × Cursor) := do
  let folded := c.head? == some '>'
  let (header, n) ← blockHeader? (c.skip 1).rest
  let c ← (c.skip (n + 1)).pastLine?
  let said := header.indent.map (parent.getD 0 + ·)
  let empty ← emptyLines said (c.rest.length + 1) c
  let indent := said.getD (max empty.furthest (parent.elim 1 (· + 1)))
  blockLines folded header.chomping indent (c.rest.length + 1) ⟨[], empty.breaks, false⟩ empty.next

end HamScript.Yaml
