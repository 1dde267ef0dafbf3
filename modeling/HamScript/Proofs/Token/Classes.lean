/-
# The characters that begin something

A token begins with a punctuation mark, a digit or the first character of a name, and a gap with a
blank or a slash.  No character is of two of these classes.  The classes are lists of ranges of code
points, so this is a comparison of the ends of the ranges.
-/
import HamScript.Token.Lexeme

namespace HamScript.Text

/-! ## Ranges that are apart -/

/-- The one range ends before the other begins. -/
def CodeRange.apart (r s : CodeRange) : Bool :=
  Nat.blt r.last s.first || Nat.blt s.last r.first

theorem CodeRange.not_holds_of_apart {r s : CodeRange} {n : Nat} (h : r.apart s = true)
    (hr : r.holds n = true) : s.holds n = false := by
  simp only [apart, Bool.or_eq_true, Nat.blt_eq] at h
  simp only [holds, Bool.and_eq_true, decide_eq_true_eq] at hr
  simp only [holds, Bool.and_eq_false_iff, decide_eq_false_iff_not]
  omega

/-- Every range of the one list is apart from every range of the other. -/
def CodeRange.allApart (rs ss : List CodeRange) : Bool :=
  rs.all fun r => ss.all r.apart

theorem CodeRange.not_anyHolds_of_allApart {rs ss : List CodeRange} {c : Char}
    (h : allApart rs ss = true) (hr : anyHolds rs c = true) : anyHolds ss c = false := by
  obtain ⟨r, hmem, hholds⟩ := List.any_eq_true.mp hr
  refine List.any_eq_false.mpr fun s hs => ?_
  have hrs := List.all_eq_true.mp (List.all_eq_true.mp h r hmem) s hs
  rw [not_holds_of_apart hrs hholds]
  exact Bool.false_ne_true

/-! ## The classes as ranges -/

/-- The decimal digits of all scripts. -/
def digits : List CodeRange :=
  ⟨48, 57⟩ :: digitRanges

/-- The letters of all scripts and the underscore. -/
def nameStarts : List CodeRange :=
  ⟨65, 90⟩ :: ⟨95, 95⟩ :: ⟨97, 122⟩ :: letterRanges

/-- The marks, and the characters `=`, `!`, `/` and `"`. -/
def punctuation : List CodeRange :=
  [⟨33, 34⟩, ⟨38, 38⟩, ⟨40, 47⟩, ⟨61, 61⟩, ⟨123, 123⟩, ⟨125, 125⟩]

theorem isDecimalDigit_eq (c : Char) : isDecimalDigit c = CodeRange.anyHolds digits c := by
  rw [Bool.eq_iff_iff]
  simp [isDecimalDigit, CodeRange.anyHolds, digits, CodeRange.holds, Char.isDigit_iff_toNat]

theorem isAlpha_iff (c : Char) :
    c.isAlpha = true ↔ 65 ≤ c.toNat ∧ c.toNat ≤ 90 ∨ 97 ≤ c.toNat ∧ c.toNat ≤ 122 := by
  have hupper : c.isUpper = true ↔ 65 ≤ c.toNat ∧ c.toNat ≤ 90 := decide_eq_true_iff
  have hlower : c.isLower = true ↔ 97 ≤ c.toNat ∧ c.toNat ≤ 122 :=
    Bool.and_eq_true_iff.trans (and_congr decide_eq_true_iff decide_eq_true_iff)
  rw [← hupper, ← hlower]
  exact Bool.or_eq_true_iff

theorem isNameStart_eq (c : Char) : Lexeme.isNameStart c = CodeRange.anyHolds nameStarts c := by
  have underscore : c = '_' ↔ 95 ≤ c.toNat ∧ c.toNat ≤ 95 := by
    rw [← Char.toNat_inj]
    exact ⟨fun h => by rw [h]; decide, fun ⟨h₁, h₂⟩ => Nat.le_antisymm h₂ h₁⟩
  rw [Bool.eq_iff_iff]
  simp [Lexeme.isNameStart, isLetter, CodeRange.anyHolds, nameStarts, CodeRange.holds,
    isAlpha_iff, underscore, or_assoc, or_left_comm]

/-! ## No character is of two classes -/

theorem punctuation_apart_blanks : CodeRange.allApart punctuation blankRanges = true := by
  decide +kernel

theorem digits_apart_blanks : CodeRange.allApart digits blankRanges = true := by
  decide +kernel

theorem digits_apart_punctuation : CodeRange.allApart digits punctuation = true := by
  decide +kernel

theorem nameStarts_apart_blanks : CodeRange.allApart nameStarts blankRanges = true := by
  decide +kernel

theorem nameStarts_apart_punctuation : CodeRange.allApart nameStarts punctuation = true := by
  decide +kernel

theorem nameStarts_apart_digits : CodeRange.allApart nameStarts digits = true := by
  decide +kernel

section
variable {c : Char}

theorem not_isBlank_of_punctuation (h : CodeRange.anyHolds punctuation c = true) :
    isBlank c = false :=
  CodeRange.not_anyHolds_of_allApart punctuation_apart_blanks h

theorem not_isBlank_of_isDecimalDigit (h : isDecimalDigit c = true) : isBlank c = false :=
  CodeRange.not_anyHolds_of_allApart digits_apart_blanks (isDecimalDigit_eq c ▸ h)

theorem not_punctuation_of_isDecimalDigit (h : isDecimalDigit c = true) :
    CodeRange.anyHolds punctuation c = false :=
  CodeRange.not_anyHolds_of_allApart digits_apart_punctuation (isDecimalDigit_eq c ▸ h)

theorem not_isBlank_of_isNameStart (h : Lexeme.isNameStart c = true) : isBlank c = false :=
  CodeRange.not_anyHolds_of_allApart nameStarts_apart_blanks (isNameStart_eq c ▸ h)

theorem not_punctuation_of_isNameStart (h : Lexeme.isNameStart c = true) :
    CodeRange.anyHolds punctuation c = false :=
  CodeRange.not_anyHolds_of_allApart nameStarts_apart_punctuation (isNameStart_eq c ▸ h)

theorem not_isDecimalDigit_of_isNameStart (h : Lexeme.isNameStart c = true) :
    isDecimalDigit c = false := by
  rw [isDecimalDigit_eq]
  exact CodeRange.not_anyHolds_of_allApart nameStarts_apart_digits (isNameStart_eq c ▸ h)

end

end HamScript.Text
