/-
# Blanks

The characters with the property White_Space: tab, line feed, vertical tab, form feed, carriage
return, space, next line, no-break space and the wider spaces and separators.
-/
import HamScript.Text.CodeRange

namespace HamScript.Text

/-- All blanks. -/
def blankRanges : List CodeRange :=
  [⟨0x9, 0xD⟩, ⟨0x20, 0x20⟩, ⟨0x85, 0x85⟩, ⟨0xA0, 0xA0⟩, ⟨0x1680, 0x1680⟩, ⟨0x2000, 0x200A⟩,
    ⟨0x2028, 0x2029⟩, ⟨0x202F, 0x202F⟩, ⟨0x205F, 0x205F⟩, ⟨0x3000, 0x3000⟩]

/-- May the character stand between tokens without meaning? -/
def isBlank (c : Char) : Bool :=
  CodeRange.anyHolds blankRanges c

end HamScript.Text
