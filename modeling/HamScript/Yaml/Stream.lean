/-
# The tokens of a text, one after the other

`Stream.peek?` gives the next token of a text and reads no further than it has to.  That a scalar is
a key shows only at the colon after it, so whatever may still turn out to be a key waits in a queue:
at the colon a `key` token goes in front of it, and in front of that the start of a mapping if the
key is indented further than the block around it.

* A key stands on one line and within `keyReach` characters.
* What stands in the column of its block has to be a key; it is a fault if it turns out to be none.
* A block ends where a line is indented less than it.  Within brackets the indentation does not
  matter.
-/
import HamScript.Yaml.Token

namespace HamScript.Yaml

/-- What may turn out to be a key: the place where it starts, its number among the tokens, and
whether it has to be a key. -/
structure Candidate where
  place : Cursor
  number : Nat
  required : Bool
  deriving Repr

/-- How far at most the colon is from the start of a key. -/
def keyReach : Nat := 1024

/-- Whether nothing that is read from a place on makes a candidate a key. -/
def Candidate.isPast (k : Candidate) (c : Cursor) : Bool :=
  k.place.line < c.line || k.place.index + keyReach < c.index

/-- Tokens that are being read from a text. -/
structure Stream where
  cursor : Cursor
  /-- The columns of the blocks around the place, the innermost first. -/
  columns : List Nat
  /-- What may turn out to be a key, within the innermost brackets. -/
  candidate : Option Candidate
  /-- The same for the brackets around these, and at last for the text outside all brackets. -/
  outer : List (Option Candidate)
  /-- Whether a key may start at the place. -/
  keyAllowed : Bool
  /-- The tokens that have been read and not yet been taken. -/
  queue : List Token
  /-- How many tokens have been taken. -/
  taken : Nat
  deriving Repr

namespace Stream

/-- The start of a text. -/
def start (cs : List Char) : Stream :=
  ⟨Cursor.start cs, [], none, [], true, [], 0⟩

/-- Whether the place is within brackets. -/
def inFlow (s : Stream) : Bool :=
  !s.outer.isEmpty

/-- The column of the innermost block. -/
def column? (s : Stream) : Option Nat :=
  s.columns.head?

/-- Adds a token that starts at the place. -/
def push (s : Stream) (kind : TokenKind) : Stream :=
  { s with queue := s.queue ++ [⟨kind, s.cursor.line⟩] }

/-- Puts a token into the queue, so that so many are before it. -/
def insert (s : Stream) (position : Nat) (token : Token) : Stream :=
  { s with queue := s.queue.take position ++ token :: s.queue.drop position }

/-- Goes on to another place. -/
def moveTo (s : Stream) (c : Cursor) : Stream :=
  { s with cursor := c }

/-- Says whether a key may start next. -/
def allowKey (s : Stream) (allowed : Bool) : Stream :=
  { s with keyAllowed := allowed }

/-! ## Candidates -/

/-- What is left of a candidate at a place.  One that has to be a key may not be past. -/
def refreshed? (c : Cursor) : Option Candidate → Option (Option Candidate)
  | none => some none
  | some k => if !k.isPast c then some (some k) else if k.required then none else some none

/-- Drops the candidates that can be no keys any more. -/
def refresh? (s : Stream) : Option Stream := do
  let candidate ← refreshed? s.cursor s.candidate
  let outer ← s.outer.mapM (refreshed? s.cursor)
  some { s with candidate := candidate, outer := outer }

/-- Drops the candidate of the innermost brackets. -/
def dropCandidate? (s : Stream) : Option Stream :=
  if s.candidate.any (·.required) then none else some { s with candidate := none }

/-- Notes that what starts at the place may turn out to be a key. -/
def addCandidate? (s : Stream) : Option Stream :=
  if s.keyAllowed then do
    let s ← s.dropCandidate?
    let required := !s.inFlow && s.column? == some s.cursor.column
    some { s with candidate := some ⟨s.cursor, s.taken + s.queue.length, required⟩ }
  else some s

/-! ## Indentation -/

/-- Opens a block in a column, unless one is open there or further to the right.  Its first token
goes to the given place in the queue. -/
def openBlock (s : Stream) (column position : Nat) (token : Token) : Stream :=
  if !s.inFlow && s.column?.all (· < column) then
    { s with columns := column :: s.columns }.insert position token
  else s

/-- Closes the blocks to the right of a column, or all of them. -/
def closeBlocks (s : Stream) (column : Option Nat) : Stream :=
  if s.inFlow then s
  else
    let closed := s.columns.takeWhile fun k => column.all (· < k)
    { s with
      columns := s.columns.drop closed.length
      queue := s.queue ++ closed.map fun _ => ⟨.blockEnd, s.cursor.line⟩ }

/-! ## Tokens -/

/-- Reads a token of one character. -/
def sign (s : Stream) (kind : TokenKind) : Stream :=
  (s.push kind).moveTo (s.cursor.skip 1)

/-- The end of the text, which ends its last line, so that no candidate is left on it. -/
def endStream? (s : Stream) : Option Stream := do
  let s ← ((s.moveTo s.cursor.pastText).closeBlocks none).dropCandidate?
  some ((s.allowKey false).push .streamEnd)

/-- A directive. -/
def directive? (s : Stream) : Option Stream := do
  let s ← (s.closeBlocks none).dropCandidate?
  let (kind, next) ← directiveKind? s.cursor
  some (((s.allowKey false).push kind).moveTo next)

/-- A mark between documents. -/
def marker? (s : Stream) (kind : TokenKind) : Option Stream := do
  let s ← (s.closeBlocks none).dropCandidate?
  some (((s.allowKey false).push kind).moveTo (s.cursor.skip 3))

/-- An opening bracket. -/
def openFlow? (s : Stream) (kind : TokenKind) : Option Stream := do
  let s ← s.addCandidate?
  some (({ s with candidate := none, outer := s.candidate :: s.outer }.allowKey true).sign kind)

/-- A closing bracket. -/
def closeFlow? (s : Stream) (kind : TokenKind) : Option Stream := do
  let s ← s.dropCandidate?
  let s :=
    match s.outer with
    | [] => s
    | k :: ks => { s with candidate := k, outer := ks }
  some ((s.allowKey false).sign kind)

/-- A comma within brackets. -/
def comma? (s : Stream) : Option Stream := do
  let s ← s.dropCandidate?
  some ((s.allowKey true).sign .comma)

/-- Opens a block at the place, where a key has to be allowed. -/
def openHere? (s : Stream) (kind : TokenKind) : Option Stream :=
  if s.inFlow then some s
  else if s.keyAllowed then
    some (s.openBlock s.cursor.column s.queue.length ⟨kind, s.cursor.line⟩)
  else none

/-- The dash of an item. -/
def item? (s : Stream) : Option Stream := do
  let s ← (← s.openHere? .blockSequenceStart).dropCandidate?
  some ((s.allowKey true).sign .item)

/-- The question mark before a key. -/
def key? (s : Stream) : Option Stream := do
  let s ← (← s.openHere? .blockMappingStart).dropCandidate?
  some ((s.allowKey (!s.inFlow)).sign .key)

/-- The colon before a value. -/
def value? (s : Stream) : Option Stream :=
  match s.candidate with
  | some k =>
    let position := k.number - s.taken
    let s := s.insert position ⟨.key, k.place.line⟩
    let s := s.openBlock k.place.column position ⟨.blockMappingStart, k.place.line⟩
    some (({ s with candidate := none }.allowKey false).sign .value)
  | none => do
    let s ← s.openHere? .blockMappingStart
    some ((s.allowKey (!s.inFlow)).sign .value)

/-- An anchor or a reference to one. -/
def anchor? (s : Stream) (kind : String → TokenKind) : Option Stream := do
  let s ← s.addCandidate?
  let (name, next) ← anchorName? (s.cursor.skip 1)
  some (((s.allowKey false).push (kind name)).moveTo next)

/-- A tag, after which there has to be a blank. -/
def tag? (s : Stream) : Option Stream := do
  let s ← s.addCandidate?
  let (kind, next) ← tagKind? s.cursor
  if startsBlank next.rest then some (((s.allowKey false).push kind).moveTo next) else none

/-- A scalar as a block of lines. -/
def block? (s : Stream) : Option Stream := do
  let s ← s.dropCandidate?
  let (text, next) ← blockText s.column? s.cursor
  some (((s.allowKey true).push (.scalar (String.ofList text) false)).moveTo next)

/-- A scalar in quotes. -/
def quoted? (s : Stream) : Option Stream := do
  let s ← s.addCandidate?
  let (text, length) ← quotedText s.cursor.rest
  some (((s.allowKey false).push (.scalar (String.ofList text) false)).moveTo (s.cursor.skip length))

/-- A plain scalar.  After a line break a key may start again. -/
def plain? (s : Stream) : Option Stream := do
  let s ← s.addCandidate?
  let read ← plainText s.inFlow (s.column?.elim 0 (· + 1)) s.cursor.rest
  let s := s.push (.scalar (String.ofList read.text) true)
  some ((s.allowKey read.endsLine).moveTo (s.cursor.skip read.length))

/-- Reads the token that starts with `c`, which `after` follows. -/
def token? (s : Stream) (c : Char) (after : List Char) : Option Stream :=
  if s.cursor.column = 0 ∧ c = '%' then s.directive?
  else if s.cursor.column = 0 ∧ startsMarker '-' (c :: after) then s.marker? .documentStart
  else if s.cursor.column = 0 ∧ startsMarker '.' (c :: after) then s.marker? .documentEnd
  else
    match c with
    | '[' => s.openFlow? .flowSequenceStart
    | '{' => s.openFlow? .flowMappingStart
    | ']' => s.closeFlow? .flowSequenceEnd
    | '}' => s.closeFlow? .flowMappingEnd
    | ',' => s.comma?
    | '*' => s.anchor? .reference
    | '&' => s.anchor? .anchor
    | '!' => s.tag?
    | '\'' | '"' => s.quoted?
    | _ =>
      if c = '-' ∧ startsBlank after then s.item?
      else if c = '?' ∧ (s.inFlow ∨ startsBlank after) then s.key?
      else if c = ':' ∧ (s.inFlow ∨ startsBlank after) then s.value?
      else if (c = '|' ∨ c = '>') ∧ !s.inFlow then s.block?
      else if startsPlain s.inFlow c after then s.plain?
      else none

/-! ## Between tokens -/

/-- The length of what stands between two tokens: blanks, comments and line breaks.  Outside brackets
a tab is no blank where a key may start. -/
def gapLength (flow : Bool) : (tabs comment : Bool) → List Char → Nat
  | _, _, [] => 0
  | tabs, comment, c :: cs =>
    if isBreak c then gapLength flow flow false cs + 1
    else if comment then gapLength flow tabs true cs + 1
    else if c = ' ' ∨ (c = '\t' ∧ tabs) then gapLength flow tabs false cs + 1
    else if c = '#' then gapLength flow tabs true cs + 1
    else 0

/-- Skips what stands before the next token.  On a new line outside brackets a key may start. -/
def skipGap (s : Stream) : Stream :=
  let gap := gapLength s.inFlow (s.inFlow || !s.keyAllowed) false s.cursor.rest
  let next := s.cursor.skip gap
  (s.moveTo next).allowKey (s.keyAllowed || (!s.inFlow && s.cursor.line < next.line))

/-- Reads on to the end of the next token. -/
def advance? (s : Stream) : Option Stream := do
  let s ← s.skipGap.refresh?
  match s.cursor.rest with
  | [] => s.endStream?
  | c :: after => (s.closeBlocks (some s.cursor.column)).token? c after

/-- Whether the first token of the queue may still get a key token in front of it. -/
def waits (s : Stream) : Bool :=
  s.queue.isEmpty || (s.candidate :: s.outer).any (·.any (·.number = s.taken))

/-- Reads on until the first token of the queue is settled.  The first argument bounds the number of
tokens. -/
def fill? : Nat → Stream → Option Stream
  | 0, _ => none
  | n + 1, s =>
    if s.queue.isEmpty then s.advance? >>= fill? n
    else do
      let s ← s.refresh?
      if s.waits then s.advance? >>= fill? n else some s

/-- The next token, if the text is well-formed so far. -/
def peek? (s : Stream) : Option (Token × Stream) := do
  let s ← fill? (s.cursor.rest.length + 3) s
  let token ← s.queue.head?
  some (token, s)

/-- Takes the next token, which has been looked at. -/
def drop (s : Stream) : Stream :=
  { s with queue := s.queue.drop 1, taken := s.taken + 1 }

end Stream

end HamScript.Yaml
