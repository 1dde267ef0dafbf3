/-
# What a plain scalar means

A scalar that is written without quotes may stand for something else than its text.  The rules:

* nothing, `~`, `null`, `Null`, `NULL` are null;
* `y`, `yes`, `on`, `true`, `n`, `no`, `off`, `false` are booleans, also with a capital first
  letter or in capitals;
* `.inf` and `.nan`, with the same choice of letters, are doubles, `.inf` also with a sign;
* dates and times are timestamps (`HamScript.Yaml.Timestamp`);
* integers have a sign or none and are written in decimal, with `0x`, `0o`, `0b`, or with a leading
  zero in octal;
* decimals with a point or an exponent are doubles, and so are integers too large for a word.

Underscores in numbers count for nothing; in a decimal that starts with a point they have to
separate digits.  Everything else is text.
-/
import HamScript.Decimal.Reading
import HamScript.Decimal.Word
import HamScript.Text.Base64
import HamScript.Yaml.Timestamp

namespace HamScript.Yaml

open Decimal (twoTo integer? minWord maxWord)

/-! ## Tags and meanings -/

/-- The kinds of nodes. -/
inductive Tag where
  | null | bool | int | float | timestamp | str | seq | map
  deriving Repr, DecidableEq

namespace Tag

/-- What all these tags start with when they are written in full. -/
def lead : String := "tag:yaml.org,2002:"

/-- The short name of a tag in full. -/
def shortName (full : String) : String :=
  if lead.toList.isPrefixOf full.toList then
    "!!" ++ String.ofList (full.toList.drop lead.length)
  else full

/-- The last part of a tag. -/
def word : Tag → String
  | null => "null"
  | bool => "bool"
  | int => "int"
  | float => "float"
  | timestamp => "timestamp"
  | str => "str"
  | seq => "seq"
  | map => "map"

/-- A tag in full. -/
def full (t : Tag) : String :=
  lead ++ t.word

/-- The tag of bytes in base 64. -/
def binary : String :=
  lead ++ "binary"

/-- The tag of a key that stands for the entries of other mappings. -/
def merge : String :=
  lead ++ "merge"

/-- The tags that say what a scalar means. -/
def ofScalars : List Tag := [null, bool, int, float, timestamp]

end Tag

/-- What a scalar stands for.  Of a double only its whole part is kept, of a boolean and of a
timestamp nothing: no more of them is ever asked for. -/
inductive Meaning where
  | null
  | bool
  | int (n : Int)
  /-- A finite double with its whole part, toward zero. -/
  | double (whole : Int)
  | infinity (negative : Bool)
  | nan
  | timestamp
  /-- Bytes that the text writes. -/
  | bytes (data : List UInt8)
  | str
  deriving Repr, DecidableEq

/-- The tag of a meaning. -/
def Meaning.tag : Meaning → Tag
  | null => .null
  | bool => .bool
  | int _ => .int
  | double _ | infinity _ | nan => .float
  | timestamp => .timestamp
  | bytes _ | str => .str

/-! ## Words -/

/-- A word in small letters, with a capital first letter, and in capitals. -/
def spellings (word : String) : List String :=
  [word, word.capitalize, word.toUpper]

/-- The words for null. -/
def nullWords : List String :=
  ["", "~"] ++ spellings "null"

/-- The words for truth and falsehood. -/
def boolWords : List String :=
  ["y", "yes", "true", "on", "n", "no", "false", "off"].flatMap spellings

/-- The spellings of infinity. -/
def infinityWords : List String :=
  [".inf", ".Inf", ".INF"]

/-- The spellings of what is not a number. -/
def nanWords : List String :=
  [".nan", ".NaN", ".NAN"]

/-! ## Doubles -/

/-- The whole part of the positive double with the given encoding. -/
def wholePart (bits : Nat) : Nat :=
  let exponent := bits / twoTo 52
  if exponent < 1023 then 0
  else
    let mantissa := twoTo 52 + bits % twoTo 52
    if 1075 ≤ exponent then mantissa * twoTo (exponent - 1075)
    else mantissa / twoTo (1075 - exponent)

/-- The whole part of a decimal without a sign, unless it is too large for a double. -/
def wholeOf? (r : Decimal.Reading) : Option Int :=
  if Decimal.infinityBits ≤ r.bits then none else some (wholePart r.bits)

/-- The whole part of a decimal with a sign or none. -/
def decimal? (cs : List Char) : Option Int :=
  let positive? (rest : List Char) : Option Int := (Decimal.Reading.ofChars? rest).bind wholeOf?
  match cs with
  | '-' :: rest => (positive? rest).map (- ·)
  | '+' :: rest => positive? rest
  | rest => positive? rest

/-! ## Meanings -/

/-- What a text means that starts with a digit or a sign. -/
def numericMeaning (cs : List Char) : Meaning :=
  if Timestamp.holds cs then .timestamp
  else
    let digits := Decimal.withoutSeparators cs
    match integer? digits with
    | some n => .int n
    | none =>
      match decimal? digits with
      | some whole => .double whole
      | none => .str

/-- What a text that stands without quotes means. -/
def Meaning.ofPlain (text : String) : Meaning :=
  if text ∈ nullWords then .null
  else if text ∈ boolWords then .bool
  else if text ∈ nanWords then .nan
  else if text ∈ infinityWords then .infinity false
  else
    match text.toList with
    | '.' :: cs =>
      match (Decimal.Reading.ofSeparated? ('.' :: cs)).bind wholeOf? with
      | some whole => .double whole
      | none => .str
    | c :: cs =>
      if (c = '+' ∨ c = '-') ∧ String.ofList cs ∈ infinityWords then .infinity (c = '-')
      else if c.isDigit ∨ c = '+' ∨ c = '-' then numericMeaning (c :: cs)
      else .str
    | [] => .null

/-- The double nearest to an integer, cut to its whole part. -/
def nearestWhole (n : Int) : Int :=
  let whole : Int := wholePart (Decimal.nearestBits n.natAbs 1)
  if n < 0 then -whole else whole

/-- A meaning under a tag that a scalar bears.  The tag has to be the one that the text has without
it, save that a signed word may be a double. -/
def Meaning.under? (t : Tag) (m : Meaning) : Option Meaning :=
  if m.tag = t then some m
  else
    match t, m with
    | .float, .int n => if n ≤ maxWord then some (.double (nearestWhole n)) else none
    | _, _ => none

/-- How a scalar says what it means: it stands plain, it stands in quotes or as a block, or it bears
a tag. -/
inductive Label where
  | plain
  | quoted
  | tagged (full : String)
  deriving Repr, DecidableEq

/-- What a text means under a label; `none` if it cannot mean that. -/
def Label.meaning? (text : String) : Label → Option Meaning
  | plain => some (.ofPlain text)
  | quoted => some .str
  | tagged full =>
    if full = Tag.binary then (Text.Base64.decode text.toList).map .bytes
    else
      match Tag.ofScalars.find? (·.full = full) with
      | some t => (Meaning.ofPlain text).under? t
      | none => some .str

/-- The tag that a text has under a label, as reports name it. -/
def Label.tagName (text : String) : Label → String
  | plain => Tag.shortName (Meaning.ofPlain text).tag.full
  | quoted => Tag.shortName Tag.str.full
  | tagged full => Tag.shortName full

/-- The integer word that a scalar gives.  Doubles are cut to their whole part; one beyond the
range of words on the negative side gives the least word, and so does the one just past the
largest word. -/
def Meaning.word? : Meaning → Option Int
  | .int n => if n ≤ maxWord then some n else none
  | .double whole =>
    if maxWord + 1 < whole then none
    else if minWord ≤ whole ∧ whole ≤ maxWord then some whole
    else some minWord
  | .infinity true => some minWord
  | _ => none

/-! ## Numbers in base sixty -/

/-- A character of the first or the last part of a number in base sixty. -/
def isOuterDigit (c : Char) : Bool :=
  c.isDigit || c == '_'

/-- Whether a text consists of parts such as `:7` and `:59`, at least one unless one has been
`seen`, and of a fraction or none. -/
def isSixties (seen : Bool) : List Char → Bool
  | [] => seen
  | '.' :: cs => seen && cs.all isOuterDigit
  | ':' :: a :: b :: cs =>
    if b.isDigit then decide ('0' ≤ a) && decide (a ≤ '5') && isSixties true cs
    else a.isDigit && isSixties true (b :: cs)
  | [':', a] => a.isDigit
  | _ => false

/-- Whether a text is a number in base sixty, such as `1:20` or `190:20:30.15`.  It means its text
here, but not to every reader. -/
def isSexagesimal (text : String) : Bool :=
  let unsigned :=
    match text.toList with
    | '+' :: cs | '-' :: cs => cs
    | cs => cs
  unsigned.head?.any Char.isDigit && isSixties false (unsigned.dropWhile isOuterDigit)

end HamScript.Yaml
