/-
# Tokens of a document

A document is a row of tokens.  Brackets, commas, colons and scalars are written in the text; that a
block starts or ends is read off the indentation.
-/
import HamScript.Yaml.Text

namespace HamScript.Yaml

/-- The kinds of tokens. -/
inductive TokenKind where
  | streamEnd
  /-- The version of the format that a document asks for. -/
  | version (major minor : Nat)
  /-- A short name for the first part of tags. -/
  | shorthand (handle lead : String)
  | documentStart
  | documentEnd
  | blockSequenceStart
  | blockMappingStart
  | blockEnd
  | flowSequenceStart
  | flowSequenceEnd
  | flowMappingStart
  | flowMappingEnd
  /-- The dash before an item. -/
  | item
  /-- The comma after an entry in brackets. -/
  | comma
  /-- What follows is a key. -/
  | key
  /-- What follows is the value of a key. -/
  | value
  | reference (name : String)
  | anchor (name : String)
  | tag (handle suffix : String)
  | scalar (text : String) (plain : Bool)
  deriving Repr, DecidableEq

/-- A token with the number of the line that it starts on. -/
structure Token where
  kind : TokenKind
  line : Nat
  deriving Repr, DecidableEq

/-! ## Anchors -/

/-- Whether a name of an anchor may end before a text. -/
def endsName : List Char → Bool
  | [] => true
  | c :: _ => isWhite c || ['?', ':', ',', ']', '}', '%', '@', '\x60'].contains c

/-- Reads a name of an anchor. -/
def anchorName? (c : Cursor) : Option (String × Cursor) :=
  let (name, next) := c.span isNameChar
  if name.isEmpty || !endsName next.rest then none else some (String.ofList name, next)

/-! ## Tags -/

/-- The characters of a tag, besides those of names. -/
def tagMarks : List Char :=
  [';', '/', '?', ':', '@', '&', '=', '+', '$', ',', '.', '!', '~', '*', '\'', '(', ')', '[', ']']

/-- The byte that two hexadecimal digits after a percent sign write. -/
def escapedByte? : List Char → Option Nat
  | '%' :: a :: b :: _ => Decimal.naturalIn? 16 [a, b]
  | _ => none

/-- How many more bytes a character has after its first one, and the bits of it in that one. -/
def leadByte? (byte : Nat) : Option (Nat × Nat) :=
  if byte < 0x80 then some (0, byte)
  else if byte < 0xC0 then none
  else if byte < 0xE0 then some (1, byte - 0xC0)
  else if byte < 0xF0 then some (2, byte - 0xE0)
  else if byte < 0xF8 then some (3, byte - 0xF0)
  else none

/-- The bits that so many more escaped bytes add to a character. -/
def moreBytes? : Nat → (bits : Nat) → List Char → Option Nat
  | 0, bits, _ => some bits
  | n + 1, bits, cs => do
    let byte ← escapedByte? cs
    if byte / 0x40 = 2 then moreBytes? n (0x40 * bits + byte % 0x40) (cs.drop 3) else none

/-- The character that escaped bytes write, and the length of what it is written as. -/
def escapedChar? (cs : List Char) : Option (Char × Nat) := do
  let (n, bits) ← leadByte? (← escapedByte? cs)
  let code ← moreBytes? n bits (cs.drop 3)
  some (if code.isValidChar then Char.ofNat code else '\uFFFD', 3 * (n + 1))

/-- The characters of a tag, and the length of what they are written as.  The first argument bounds
their number. -/
def tagChars? : Nat → List Char → Option (List Char × Nat)
  | 0, _ => none
  | _, [] => some ([], 0)
  | n + 1, c :: cs =>
    if c = '%' then do
      let (ch, length) ← escapedChar? (c :: cs)
      let (more, rest) ← tagChars? n ((c :: cs).drop length)
      some (ch :: more, length + rest)
    else if isNameChar c || tagMarks.contains c then
      (tagChars? n cs).map fun (more, rest) => (c :: more, rest + 1)
    else some ([], 0)

/-- Reads the characters of a tag. -/
def tagText? (c : Cursor) : Option (String × Cursor) := do
  let (text, length) ← tagChars? (c.rest.length + 1) c.rest
  some (String.ofList text, c.skip length)

/-- The same where there has to be a character. -/
def someTagText? (c : Cursor) : Option (String × Cursor) := do
  let (text, next) ← tagText? c
  if text.isEmpty then none else some (text, next)

/-- Reads the name between the exclamation marks of a handle, of which the second may be missing. -/
def handleName (c : Cursor) : List Char × Bool × Cursor :=
  let (name, next) := (c.skip 1).span isNameChar
  if next.head? = some '!' then (name, true, next.skip 1) else (name, false, next)

/-- A handle between exclamation marks. -/
def fullHandle (name : List Char) : String :=
  String.ofList ('!' :: name ++ ['!'])

/-- Reads a tag: in angle brackets, after a handle, or after one exclamation mark.  A lone
exclamation mark is a tag of its own. -/
def tagKind? (c : Cursor) : Option (TokenKind × Cursor) :=
  if c.rest.take 2 = ['!', '<'] then do
    let (text, next) ← someTagText? (c.skip 2)
    if next.head? = some '>' then some (.tag "" text, next.skip 1) else none
  else
    match handleName c with
    | (name, true, next) => do
      let (suffix, next) ← someTagText? next
      some (.tag (fullHandle name) suffix, next)
    | (name, false, next) => do
      let (more, next) ← tagText? next
      let suffix := String.ofList name ++ more
      some (if suffix.isEmpty then .tag "" "!" else .tag "!" suffix, next)

/-! ## Directives -/

/-- Reads a number of one or two digits. -/
def versionNumber? (c : Cursor) : Option (Nat × Cursor) :=
  let (digits, next) := c.span Char.isDigit
  if digits.length ≤ 2 then (Decimal.natural? digits).map (·, next) else none

/-- Reads what a version directive says. -/
def versionKind? (c : Cursor) : Option (TokenKind × Cursor) := do
  let (major, next) ← versionNumber? c.pastBlanks
  if next.head? = some '.' then do
    let (minor, next) ← versionNumber? (next.skip 1)
    some (.version major minor, next)
  else none

/-- Reads what a directive on tags says. -/
def shorthandKind? (c : Cursor) : Option (TokenKind × Cursor) :=
  let c := c.pastBlanks
  if c.head? = some '!' then
    let (name, closed, next) := handleName c
    if (closed || name.isEmpty) && next.head?.any isBlank then do
      let (lead, next) ← someTagText? next.pastBlanks
      if startsBlank next.rest then
        some (.shorthand (if closed then fullHandle name else "!") lead, next)
      else none
    else none
  else none

/-- Reads a directive at its percent sign, and the rest of its line. -/
def directiveKind? (c : Cursor) : Option (TokenKind × Cursor) := do
  let (name, next) := (c.skip 1).span isNameChar
  let (kind, next) ←
    if !startsBlank next.rest then none
    else if name = ['Y', 'A', 'M', 'L'] then versionKind? next
    else if name = ['T', 'A', 'G'] then shorthandKind? next
    else none
  some (kind, ← next.pastLine?)

end HamScript.Yaml
