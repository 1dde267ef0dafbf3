/-
# Characters of a source, with their sizes

A source is a sequence of bytes read as UTF-8.  Each character keeps the number of bytes it took,
because positions count bytes.  A byte that starts no well-formed character stands for one
replacement character of size 1, so every byte sequence can be read and no byte is lost.
-/
namespace HamScript.Source

/-- A character and the number of bytes it was read from. -/
structure Glyph where
  char : Char
  size : Nat
  deriving Repr, DecidableEq

namespace Glyph

/-- A character read from its own UTF-8 form. -/
def ofChar (c : Char) : Glyph :=
  ⟨c, c.utf8Size⟩

/-- What one byte that belongs to no character is read as. -/
def replacement : Glyph :=
  ⟨'�', 1⟩

/-- Is the byte, as a number, a second, third or fourth byte of a character? -/
def isTail (b : Nat) : Bool :=
  decide (0x80 ≤ b) && decide (b ≤ 0xBF)

/-- The second bytes that may follow the first byte `b` of a character of three or four bytes.
The bounds keep out overlong forms, surrogates and numbers past U+10FFFF. -/
def secondBounds (b : Nat) : Nat × Nat :=
  if b = 0xE0 then (0xA0, 0xBF)
  else if b = 0xED then (0x80, 0x9F)
  else if b = 0xF0 then (0x90, 0xBF)
  else if b = 0xF4 then (0x80, 0x8F)
  else (0x80, 0xBF)

/-- May `b₁` follow the first byte `b₀`? -/
def isSecond (b₀ b₁ : Nat) : Bool :=
  decide ((secondBounds b₀).1 ≤ b₁) && decide (b₁ ≤ (secondBounds b₀).2)

/-- The character at the front of the bytes `b₀ :: rest`. -/
def readFirst (b₀ : Nat) (rest : List Nat) : Glyph :=
  if b₀ < 0x80 then ⟨Char.ofNat b₀, 1⟩
  else if 0xC2 ≤ b₀ ∧ b₀ ≤ 0xDF then
    match rest with
    | b₁ :: _ =>
      if isTail b₁ then ⟨Char.ofNat ((b₀ - 0xC0) * 0x40 + (b₁ - 0x80)), 2⟩ else replacement
    | _ => replacement
  else if 0xE0 ≤ b₀ ∧ b₀ ≤ 0xEF then
    match rest with
    | b₁ :: b₂ :: _ =>
      if isSecond b₀ b₁ && isTail b₂ then
        ⟨Char.ofNat ((b₀ - 0xE0) * 0x1000 + (b₁ - 0x80) * 0x40 + (b₂ - 0x80)), 3⟩
      else replacement
    | _ => replacement
  else if 0xF0 ≤ b₀ ∧ b₀ ≤ 0xF4 then
    match rest with
    | b₁ :: b₂ :: b₃ :: _ =>
      if isSecond b₀ b₁ && isTail b₂ && isTail b₃ then
        ⟨Char.ofNat ((b₀ - 0xF0) * 0x40000 + (b₁ - 0x80) * 0x1000 + (b₂ - 0x80) * 0x40
          + (b₃ - 0x80)), 4⟩
      else replacement
    | _ => replacement
  else replacement

/-- Reads the bytes after leaving out the first `skip` of them, which an earlier character took. -/
def readFrom : Nat → List Nat → List Glyph
  | _, [] => []
  | 0, b :: rest =>
    let g := readFirst b rest
    g :: readFrom (g.size - 1) rest
  | skip + 1, _ :: rest => readFrom skip rest

/-- The characters of a byte sequence. -/
def ofBytes (bytes : List UInt8) : List Glyph :=
  readFrom 0 (bytes.map UInt8.toNat)

/-- The characters of a text, each of the size of its UTF-8 form. -/
def ofText (text : String) : List Glyph :=
  text.toList.map ofChar

/-- The text that a list of characters spells. -/
def text (gs : List Glyph) : String :=
  String.ofList (gs.map Glyph.char)

end Glyph

end HamScript.Source
