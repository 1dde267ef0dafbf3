/-
# How numbers and texts are written

A whole number is written in decimal digits, and they have its value.  A quoted text is written
character by character, and what is written for one character is never the beginning of what is
written for another one: the written forms are a prefix code.  So a number or a quoted text can be
told from its written form, also if more follows the closing quote.
-/
import HamScript.Decimal.Digits
import HamScript.Text.Quoted

namespace HamScript

/-! ## Whole numbers -/

namespace Decimal

theorem valueOf_append (cs : List Char) (c : Char) :
    valueOf (cs ++ [c]) = 10 * valueOf cs + digitValue c := by
  rw [valueOf, List.foldl_append]
  rfl

theorem digitValue_digitChar {n : Nat} (h : n < 10) : digitValue n.digitChar = n :=
  Nat.toNat_digitChar_sub_48_of_lt_ten h

/-- The digits of a number have its value. -/
theorem valueOf_toDigits (n : Nat) : valueOf (Nat.toDigits 10 n) = n := by
  induction n using Nat.strongRecOn with
  | _ n ih =>
      by_cases hn : n < 10
      · rw [Nat.toDigits_of_lt_base hn]
        exact (Nat.zero_add _).trans (digitValue_digitChar hn)
      · rw [Nat.toDigits_of_base_le (by decide) (Nat.le_of_not_lt hn), valueOf_append,
          ih (n / 10) (by omega), digitValue_digitChar (Nat.mod_lt n (by decide))]
        exact Nat.div_add_mod n 10

end Decimal

namespace Text

/-! ## Hexadecimal digits -/

theorem hexDigit_injective : ∀ d < 16, ∀ e < 16, hexDigit d = hexDigit e → d = e := by
  decide

theorem length_hexDigits (width n : Nat) : (hexDigits width n).length = width := by
  induction width with
  | zero => rfl
  | succ width ih => exact congrArg Nat.succ ih

/-- The last digits of numbers determine the numbers up to what stands before. -/
theorem mod_eq_of_hexDigits {width m n : Nat} (h : hexDigits width m = hexDigits width n) :
    m % Nat.pow 16 width = n % Nat.pow 16 width := by
  induction width with
  | zero => exact (Nat.mod_one m).trans (Nat.mod_one n).symm
  | succ width ih =>
      obtain ⟨hdigit, hrest⟩ := List.cons.inj h
      have hhigh : m / Nat.pow 16 width % 16 = n / Nat.pow 16 width % 16 :=
        hexDigit_injective _ (Nat.mod_lt _ (by decide)) _ (Nat.mod_lt _ (by decide)) hdigit
      have hsplit : ∀ k, k % Nat.pow 16 (width + 1) =
          k % Nat.pow 16 width + Nat.pow 16 width * (k / Nat.pow 16 width % 16) := fun k =>
        Nat.mod_mul
      rw [hsplit, hsplit, ih hrest, hhigh]

/-! ## The written form of a character -/

/-- The characters that are written as a backslash and another character, which comes first. -/
def letters : List (Char × Char) :=
  [('"', '"'), ('\\', '\\'), ('a', '\x07'), ('b', '\x08'), ('t', '\t'), ('n', '\n'), ('v', '\x0b'),
    ('f', '\x0c'), ('r', '\r')]

/-- The characters after a backslash that announce a number, and how many digits it has. -/
def widths : List (Char × Nat) :=
  [('x', 2), ('u', 4), ('U', 8)]

/-- What a character is written as between double quotes. -/
inductive Written (c : Char) : List Char → Prop
  | plain : c ≠ '"' → c ≠ '\\' → isPrintable c = true → Written c [c]
  | letter {l : Char} : (l, c) ∈ letters → Written c ['\\', l]
  | number {l : Char} {width : Nat} :
      (l, width) ∈ widths → c.toNat < Nat.pow 16 width →
      Written c ('\\' :: l :: hexDigits width c.toNat)

theorem mem_letters_of_controlLetter? {c l : Char} (h : controlLetter? c = some l) :
    (l, c) ∈ letters := by
  have hchar : ∀ {d : Char}, c.toNat = d.toNat → c = d := Char.toNat_inj.mp
  unfold controlLetter? at h
  split at h
  next hc => cases h; rw [hchar (d := '\x07') hc]; decide
  next hc => cases h; rw [hchar (d := '\x08') hc]; decide
  next hc => cases h; rw [hchar (d := '\t') hc]; decide
  next hc => cases h; rw [hchar (d := '\n') hc]; decide
  next hc => cases h; rw [hchar (d := '\x0b') hc]; decide
  next hc => cases h; rw [hchar (d := '\x0c') hc]; decide
  next hc => cases h; rw [hchar (d := '\r') hc]; decide
  next => cases h

theorem written_escapeUnprintable (c : Char) : Written c (escapeUnprintable c) := by
  have hvalid : c.toNat < 0x110000 := by
    rcases c.valid with h | ⟨-, h⟩
    · exact Nat.lt_trans h (by decide)
    · exact h
  unfold escapeUnprintable
  split
  next l hl => exact .letter (mem_letters_of_controlLetter? hl)
  next =>
    split
    next h => exact .number (by decide) (Nat.lt_trans h (by decide))
    next =>
      split
      next h => exact .number (by decide) h
      next => exact .number (by decide) (Nat.lt_trans hvalid (by decide))

theorem written_escapeIn (c : Char) : Written c (escapeIn '"' c) := by
  unfold escapeIn
  split
  next h =>
    rcases h with rfl | rfl
    · exact .letter (by decide)
    · exact .letter (by decide)
  next h =>
    split
    next hprint => exact .plain (fun hc => h (.inl hc)) (fun hc => h (.inr hc)) hprint
    next => exact written_escapeUnprintable c

namespace Written

variable {c d : Char} {s t r u : List Char}

/-- No written form begins with a quote. -/
theorem ne_quote (h : Written c s) : s ++ r ≠ '"' :: u := by
  cases h with
  | plain hquote => exact fun heq => hquote (List.cons.inj heq).1
  | letter => exact fun heq => absurd (List.cons.inj heq).1 (by decide)
  | number => exact fun heq => absurd (List.cons.inj heq).1 (by decide)

/-- A written form has no line feed. -/
theorem feed_not_mem (h : Written c s) : '\n' ∉ s := by
  have hdigit : ∀ d < 16, hexDigit d ≠ '\n' := by decide
  have hdigits : ∀ width n, '\n' ∉ hexDigits width n := by
    intro width n
    induction width with
    | zero => exact List.not_mem_nil
    | succ width ih =>
        exact List.not_mem_cons_of_ne_of_not_mem (hdigit _ (Nat.mod_lt _ (by decide))).symm ih
  have hletters : ∀ p ∈ letters, '\n' ≠ p.1 := by decide
  have hwidths : ∀ p ∈ widths, '\n' ≠ p.1 := by decide
  cases h with
  | plain _ _ hprint =>
      rw [List.mem_singleton]
      rintro rfl
      exact absurd hprint (by decide)
  | letter hl =>
      exact List.not_mem_cons_of_ne_of_not_mem (by decide)
        (mt List.mem_singleton.mp (hletters _ hl))
  | number hw =>
      exact List.not_mem_cons_of_ne_of_not_mem (by decide)
        (List.not_mem_cons_of_ne_of_not_mem (hwidths _ hw) (hdigits _ _))

theorem number_append_inj {width : Nat} (hc : c.toNat < Nat.pow 16 width)
    (hd : d.toNat < Nat.pow 16 width)
    (h : hexDigits width c.toNat ++ r = hexDigits width d.toNat ++ u) : c = d ∧ r = u := by
  have hlength : (hexDigits width c.toNat).length = (hexDigits width d.toNat).length := by
    rw [length_hexDigits, length_hexDigits]
  obtain ⟨hdigits, hrest⟩ := List.append_inj h hlength
  have hmod := mod_eq_of_hexDigits hdigits
  rw [Nat.mod_eq_of_lt hc, Nat.mod_eq_of_lt hd] at hmod
  exact ⟨Char.toNat_inj.mp hmod, hrest⟩

/-- The written forms are a prefix code. -/
theorem append_inj (hs : Written c s) (ht : Written d t) (h : s ++ r = t ++ u) :
    c = d ∧ r = u := by
  have hletters : ∀ p ∈ letters, ∀ q ∈ letters, p.1 = q.1 → p.2 = q.2 := by decide
  have hwidths : ∀ p ∈ widths, ∀ q ∈ widths, p.1 = q.1 → p.2 = q.2 := by decide
  have hapart : ∀ p ∈ letters, ∀ q ∈ widths, p.1 ≠ q.1 := by decide
  cases hs with
  | plain _ hslash =>
      cases ht with
      | plain => exact List.cons.inj h
      | letter => exact absurd (List.cons.inj h).1 hslash
      | number => exact absurd (List.cons.inj h).1 hslash
  | letter hl =>
      cases ht with
      | plain _ hslash => exact absurd (List.cons.inj h).1.symm hslash
      | letter hl' =>
          obtain ⟨hletter, hrest⟩ := List.cons.inj (List.cons.inj h).2
          exact ⟨hletters _ hl _ hl' hletter, hrest⟩
      | number hw _ => exact absurd (List.cons.inj (List.cons.inj h).2).1 (hapart _ hl _ hw)
  | number hw hc =>
      cases ht with
      | plain _ hslash => exact absurd (List.cons.inj h).1.symm hslash
      | letter hl => exact absurd (List.cons.inj (List.cons.inj h).2).1.symm (hapart _ hl _ hw)
      | number hw' hd =>
          obtain ⟨hletter, hrest⟩ := List.cons.inj (List.cons.inj h).2
          obtain rfl := hwidths _ hw _ hw' hletter
          exact number_append_inj hc hd hrest

end Written

theorem escaped_append_inj {cs ds r u : List Char}
    (h : cs.flatMap (escapeIn '"') ++ '"' :: r = ds.flatMap (escapeIn '"') ++ '"' :: u) :
    cs = ds ∧ r = u := by
  induction cs generalizing ds with
  | nil =>
      cases ds with
      | nil => exact ⟨rfl, (List.cons.inj h).2⟩
      | cons d ds =>
          rw [List.flatMap_cons, List.append_assoc] at h
          exact absurd h.symm (written_escapeIn d).ne_quote
  | cons c cs ih =>
      cases ds with
      | nil =>
          rw [List.flatMap_cons, List.append_assoc] at h
          exact absurd h (written_escapeIn c).ne_quote
      | cons d ds =>
          rw [List.flatMap_cons, List.flatMap_cons, List.append_assoc, List.append_assoc] at h
          obtain ⟨rfl, hmore⟩ := (written_escapeIn c).append_inj (written_escapeIn d) h
          obtain ⟨rfl, hrest⟩ := ih hmore
          exact ⟨rfl, hrest⟩

theorem feed_not_mem_escaped (cs : List Char) : '\n' ∉ cs.flatMap (escapeIn '"') := by
  intro h
  obtain ⟨c, -, hc⟩ := List.mem_flatMap.mp h
  exact (written_escapeIn c).feed_not_mem hc

theorem toList_quoted (s : String) :
    (quoted s).toList = '"' :: (s.toList.flatMap (escapeIn '"') ++ ['"']) := by
  rw [quoted, String.toList_ofList]

/-- A quoted text can be told from what begins with it. -/
theorem quoted_append_inj {s t : String} {r u : List Char}
    (h : (quoted s).toList ++ r = (quoted t).toList ++ u) : s = t ∧ r = u := by
  rw [toList_quoted, toList_quoted, List.cons_append, List.cons_append, List.append_assoc,
    List.append_assoc] at h
  obtain ⟨hchars, hrest⟩ := escaped_append_inj (List.cons.inj h).2
  exact ⟨String.toList_inj.mp hchars, hrest⟩

end Text

end HamScript
