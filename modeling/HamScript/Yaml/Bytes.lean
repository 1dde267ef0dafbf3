/-
# The bytes of a document

A document is UTF-8, or UTF-16 if it starts with a byte order mark of it.  The mark is read as a
character like any other; reading the text passes over it.
-/
import HamScript.Source.Glyph

namespace HamScript.Yaml

open Source (Glyph)

/-! ## UTF-16 -/

/-- The units of sixteen bits that bytes make up, the larger byte first if `big`. -/
def units? (big : Bool) : List UInt8 → Option (List Nat)
  | [] => some []
  | [_] => none
  | a :: b :: rest =>
    let unit := if big then 256 * a.toNat + b.toNat else a.toNat + 256 * b.toNat
    (units? big rest).map (unit :: ·)

/-- Whether a unit is the first half of a pair that makes up a character. -/
def isLead (u : Nat) : Bool :=
  0xD800 ≤ u && u ≤ 0xDBFF

/-- Whether a unit is the second half of such a pair. -/
def isTrail (u : Nat) : Bool :=
  0xDC00 ≤ u && u ≤ 0xDFFF

/-- The characters that units make up.  No half stands alone. -/
def charsOfUnits? : List Nat → Option (List Char)
  | [] => some []
  | [u] => if isLead u || isTrail u then none else some [Char.ofNat u]
  | u :: v :: rest =>
    if isLead u then
      if isTrail v then
        let c := Char.ofNat (0x10000 + 0x400 * (u - 0xD800) + (v - 0xDC00))
        (charsOfUnits? rest).map (c :: ·)
      else none
    else if isTrail u then none
    else (charsOfUnits? (v :: rest)).map (Char.ofNat u :: ·)

/-! ## Documents -/

/-- The text of bytes that are well-formed UTF-8. -/
def utf8Text? (bytes : List UInt8) : Option String :=
  let glyphs := Glyph.ofBytes bytes
  if Glyph.replacement ∈ glyphs then none else some (Glyph.text glyphs)

/-- The text of bytes that are well-formed UTF-16. -/
def utf16Text? (big : Bool) (bytes : List UInt8) : Option String := do
  let units ← units? big bytes
  let chars ← charsOfUnits? units
  some (String.ofList chars)

/-- The text of a document, if its bytes are well-formed. -/
def textOfBytes? : List UInt8 → Option String
  | 0xFE :: 0xFF :: rest => utf16Text? true (0xFE :: 0xFF :: rest)
  | 0xFF :: 0xFE :: rest => utf16Text? false (0xFF :: 0xFE :: rest)
  | bytes => utf8Text? bytes

end HamScript.Yaml
