/-
# Tokens through a buffer

Reads one token character by character.  A token is known to end only at a character that does not
belong to it, and that one is taken back; at a point after digits the character after it is looked
at as well.  So at most two characters are ever taken back in a row.
-/
import HamScript.Source.Buffer
import HamScript.Token.Scan

namespace HamScript.Token

open Source (Position Span Seen Reads)

/-- The text of characters. -/
def seenText (seen : List Seen) : String :=
  String.ofList (seen.map Seen.char)

/-- A token that stands for its own characters, of which `first` is the first. -/
def ofSeen (kind : Kind) (first : Seen) (more : List Seen) : Token :=
  ⟨kind, seenText (first :: more), ⟨first.start, ((first :: more).getLastD first).start⟩⟩

/-! ## Names and numbers -/

/-- Reads a name or a reserved word after its first character. -/
def readName (first : Seen) : Reads Token := do
  let more ← Reads.bounded (Reads.takeWhile Lexeme.isNamePart)
  return ofSeen ((Kind.ofWord? (seenText (first :: more))).getD .ident) first more

/-- Reads the rest of a number, at most `n` characters, and says whether the number has a point;
`pointed` says whether it had one before. -/
def readDigits (pointed : Bool) : (n : Nat) → Reads (Bool × List Seen)
  | 0 => return (pointed, [])
  | n + 1 => do
    match ← Reads.read with
    | none => return (pointed, [])
    | some s =>
      if Text.isDecimalDigit s.char then
        let (pointed, more) ← readDigits pointed n
        return (pointed, s :: more)
      else if s.char = '.' ∧ pointed = false then
        -- `5.sum(1)` is a call on `5`
        if (← Reads.peek).any Text.isDecimalDigit then
          let (pointed, more) ← readDigits true n
          return (pointed, s :: more)
        else
          Reads.back
          return (pointed, [])
      else
        Reads.back
        return (pointed, [])

/-- Reads a number after its first digit. -/
def readNumber (first : Seen) : Reads Token := do
  let (pointed, more) ← Reads.bounded (readDigits false)
  return ofSeen (if pointed then .float else .int) first more

/-! ## Strings -/

/-- Reads the rest of a string, at most `n` characters or pairs of them: what it stands for and
where its closing quote is, if there is one. -/
def readBody : (n : Nat) → Reads (Option (List Char × Position))
  | 0 => return none
  | n + 1 => do
    match ← Reads.read with
    | none => return none
    | some s =>
      if s.char = '"' then return some ([], s.start)
      else if s.char = '\\' then
        match ← Reads.read with
        | none => return none
        | some e =>
          let body ← readBody n
          return body.map fun (value, stop) => (Lexeme.unescape e.char ++ value, stop)
      else
        let body ← readBody n
        return body.map fun (value, stop) => (s.char :: value, stop)

/-- Reads a string after its opening quote. -/
def readString (first : Seen) : Reads (Except ScanFault Token) := do
  match ← Reads.bounded readBody with
  | some (value, stop) => return .ok ⟨.string, String.ofList value, ⟨first.start, stop⟩⟩
  | none =>
    let here ← get
    return .error (.unterminated ⟨first.start, here.position⟩)

/-! ## Tokens -/

/-- Reads a mark that an equals sign may follow, after its first character. -/
def readPair (first : Seen) (double : Kind) (alone : Except ScanFault Token) :
    Reads (Except ScanFault Token) := do
  if (← Reads.peek) = some '=' then
    match ← Reads.read with
    | some second => return .ok (ofSeen double first [second])
    | none => return alone
  else return alone

/-- Reads a comment to the end of its line, at most `n` characters. -/
def skipComment : (n : Nat) → Reads Unit
  | 0 => return ()
  | n + 1 => do
    match ← Reads.read with
    | none => return ()
    | some s => if s.char = '\n' then return () else skipComment n

/-- The fault of a character that begins no token. -/
def unrecognized (s : Seen) : Except ScanFault Token :=
  .error (.unrecognized s.char (.single s.start))

/-- Reads a token that begins with a character which is neither a blank nor the start of a
comment. -/
def readFrom (s : Seen) : Reads (Except ScanFault Token) := do
  match Kind.ofMark? s.char with
  | some kind => return .ok (ofSeen kind s [])
  | none =>
    if s.char = '=' then readPair s .equal (.ok (ofSeen .assign s []))
    else if s.char = '!' then readPair s .notEqual (unrecognized s)
    else if s.char = '/' then return .ok (ofSeen .slash s [])
    else if s.char = '"' then readString s
    else if Text.isDecimalDigit s.char then return .ok (← readNumber s)
    else if Lexeme.isNameStart s.char then return .ok (← readName s)
    else return unrecognized s

/-- Reads the next token, over at most `n` blanks and comments before it; `none` at the end. -/
def readNext : (n : Nat) → Reads (Option (Except ScanFault Token))
  | 0 => return none
  | n + 1 => do
    match ← Reads.read with
    | none => return none
    | some s =>
      if Text.isBlank s.char then readNext n
      else if s.char = '/' then
        if (← Reads.peek) = some '/' then
          Reads.bounded skipComment
          readNext n
        else return some (← readFrom s)
      else return some (← readFrom s)

/-- Reads the next token of a source that ends in a given way. -/
def read (ending : Ending) : Reads (Except ScanFault Token) := do
  match ← Reads.bounded fun n => readNext (n + 1) with
  | some result => return result
  | none =>
    let here ← get
    return (Scan.stopAt ending here.position).map Token.endAt

end HamScript.Token
