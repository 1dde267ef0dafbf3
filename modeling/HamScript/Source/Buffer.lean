/-
# Characters with a short memory

A buffer gives the characters of a source one by one and can take the last few of them back.  It
stands for one place in the source:

* `past` holds the characters just before that place, the latest first, at most `memory` of them;
* `ahead`, followed by `rest`, holds the characters from that place on;
* `position` is the coordinate of the place.
-/
import HamScript.Source.Position

namespace HamScript.Source

/-- A character that has been read, with its position and the position after it. -/
structure Seen where
  char : Char
  start : Position
  next : Position
  deriving Repr, DecidableEq

/-- The character `g` that stands at `p`. -/
def Seen.ofGlyph (p : Position) (g : Glyph) : Seen :=
  ⟨g.char, p, p.after g⟩

/-- A place in a source. -/
structure Buffer where
  position : Position
  /-- The last characters that were read and not taken back. -/
  past : List Seen
  /-- The characters that were taken back, the next one first. -/
  ahead : List Seen
  /-- The characters that have never been read. -/
  rest : List Glyph
  deriving Repr, DecidableEq

namespace Buffer

/-- How many characters are remembered. -/
def memory : Nat := 4

/-- The beginning of a source. -/
def start (gs : List Glyph) : Buffer :=
  ⟨.start, [], [], gs⟩

/-- How many characters are still to come. -/
def remaining (b : Buffer) : Nat :=
  b.ahead.length + b.rest.length

/-- Moves past the character `s`. -/
def pass (b : Buffer) (s : Seen) : Buffer :=
  { b with position := s.next, past := (s :: b.past).take memory }

/-- The next character and the place after it; `none` at the end. -/
def next? (b : Buffer) : Option (Seen × Buffer) :=
  match b.ahead, b.rest with
  | s :: ahead, _ => some (s, { b.pass s with ahead })
  | [], g :: rest =>
    let s := Seen.ofGlyph b.position g
    some (s, { b.pass s with rest })
  | [], [] => none

/-- The place one character back; `none` if that character is not remembered. -/
def back? (b : Buffer) : Option Buffer :=
  match b.past with
  | s :: past => some { b with position := s.start, past, ahead := s :: b.ahead }
  | [] => none

end Buffer

/-! ## Reading through a buffer -/

/-- A way to read from a buffer; `none` if more was taken back than is remembered. -/
abbrev Reads (α : Type) := StateT Buffer Option α

namespace Reads

/-- Reads a character; there is none at the end. -/
def read : Reads (Option Seen) := fun b =>
  match b.next? with
  | some (s, b') => some (some s, b')
  | none => some (none, b)

/-- Takes the last character back. -/
def back : Reads Unit := fun b =>
  b.back?.map ((), ·)

/-- Looks at the next character. -/
def peek : Reads (Option Char) := do
  match ← read with
  | none => return none
  | some s =>
    back
    return some s.char

/-- Gives a reader the number of characters that are still to come. -/
def bounded {α : Type} (r : Nat → Reads α) : Reads α := fun b =>
  r b.remaining b

/-- Reads characters while they are of a class, at most `n` of them. -/
def takeWhile (p : Char → Bool) : (n : Nat) → Reads (List Seen)
  | 0 => return []
  | n + 1 => do
    match ← read with
    | none => return []
    | some s =>
      if p s.char then
        let more ← takeWhile p n
        return s :: more
      else
        back
        return []

end Reads

end HamScript.Source
