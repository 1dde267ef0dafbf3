/-
# Integers that are written are read back

A positive integer is written in decimal digits, the first of them no zero.  Such a row of digits
stands plain, and it means the integer: it is none of the words for null, truth and the like, it is
no date, and no other base is meant.
-/
import HamScript.Proofs.Text.Literals
import HamScript.Proofs.Yaml.Scalars

namespace HamScript

/-! ## Digits -/

namespace Decimal

/-- A row of digits that does not start with a zero. -/
structure IsNumeral (cs : List Char) : Prop where
  ne_nil : cs ≠ []
  digits : ∀ c ∈ cs, c.isDigit = true
  head_ne : cs.head? ≠ some '0'

theorem digitIn?_of_isDigit {c : Char} (h : c.isDigit = true) :
    digitIn? 10 c = some (digitValue c) := by
  have hrange : 48 ≤ c.toNat ∧ c.toNat ≤ 57 := Char.isDigit_iff_toNat.mp h
  have hlt : c.toNat - 48 < 10 := by omega
  simp [digitIn?, h, hlt, digitValue]

theorem naturalIn?_digits {cs : List Char} (hne : cs ≠ []) (h : ∀ c ∈ cs, c.isDigit = true) :
    naturalIn? 10 cs = some (valueOf cs) := by
  have hfold : ∀ (ds : List Char) (v : Nat), (∀ c ∈ ds, c.isDigit = true) →
      ds.foldlM (fun v c => (digitIn? 10 c).map (10 * v + ·)) v =
        some (ds.foldl (fun v c => 10 * v + digitValue c) v) := by
    intro ds
    induction ds with
    | nil =>
        intro v _
        rfl
    | cons d ds ih =>
        intro v hds
        rw [List.foldlM_cons, digitIn?_of_isDigit (hds d List.mem_cons_self)]
        exact ih _ fun c hc => hds c (List.mem_cons_of_mem d hc)
  rw [naturalIn?]
  · exact hfold cs 0 h
  · exact hne

namespace IsNumeral

/-- The digits of a positive number. -/
theorem toDigits {n : Nat} (h : 0 < n) : IsNumeral (Nat.toDigits 10 n) := by
  refine ⟨Nat.toDigits_ne_nil, fun c hc => Nat.isDigit_of_mem_toDigits (by decide) (by decide) hc,
    ?_⟩
  induction n using Nat.strongRecOn with
  | _ n ih =>
      by_cases hn : n < 10
      · rw [Nat.toDigits_of_lt_base hn]
        intro hhead
        have hzero : n.digitChar = '0' := Option.some.inj hhead
        have hvalue := digitValue_digitChar hn
        rw [hzero] at hvalue
        exact absurd hvalue (Nat.ne_of_lt h)
      · rw [Nat.toDigits_of_base_le (by decide) (Nat.le_of_not_lt hn), List.head?_append,
          Option.or_of_isSome]
        · exact ih (n / 10) (by omega) (by omega)
        · rw [List.isSome_head?]
          simp [Nat.toDigits_ne_nil]

section
variable {c : Char} {cs : List Char}

theorem ne_of_not_isDigit (h : IsNumeral (c :: cs)) {d : Char} (hd : d.isDigit = false) :
    c ≠ d := by
  rintro rfl
  rw [h.digits c List.mem_cons_self] at hd
  cases hd

/-- A row of digits without a zero in front is read in base ten. -/
theorem unsigned?_eq (h : IsNumeral (c :: cs)) :
    unsigned? (c :: cs) = some (valueOf (c :: cs)) := by
  have hzero : c ≠ '0' := by
    rintro rfl
    exact h.head_ne rfl
  rw [← naturalIn?_digits h.ne_nil h.digits]
  cases cs with
  | nil => simp [unsigned?]
  | cons d ds => simp [unsigned?, hzero]

theorem integer?_eq (h : IsNumeral (c :: cs)) (hword : (valueOf (c :: cs) : Int) ≤ maxWord) :
    integer? (c :: cs) = some (valueOf (c :: cs) : Int) := by
  have hminus : c ≠ '-' := h.ne_of_not_isDigit (by decide)
  have hplus : c ≠ '+' := h.ne_of_not_isDigit (by decide)
  have hleast : minWord ≤ (valueOf (c :: cs) : Int) :=
    Int.le_trans (by decide) (Int.natCast_nonneg _)
  have hread : wordOf? unsigned? (c :: cs) = some (valueOf (c :: cs) : Int) := by
    simp [wordOf?, signedOf?, hminus, hplus, h.unsigned?_eq, hleast, hword]
  have hinteger : integerOf? unsigned? (c :: cs) = some (valueOf (c :: cs) : Int) := by
    rw [integerOf?, hread]
  simp only [integer?, hinteger]

end

end IsNumeral

end Decimal

/-! ## What digits mean -/

namespace Yaml

open Decimal (IsNumeral valueOf maxWord)

section
variable {c : Char} {cs : List Char}

/-- A row of digits is no date: a date goes on with a dash. -/
theorem Timestamp.holds_digits {cs : List Char} (h : ∀ c ∈ cs, c.isDigit = true) :
    holds cs = false := by
  have htake : cs.takeWhile Char.isDigit = cs := by
    have hall : (cs ++ []).takeWhile Char.isDigit = cs ++ [].takeWhile Char.isDigit :=
      List.takeWhile_append_of_pos h
    rwa [List.append_nil, List.takeWhile_nil, List.append_nil] at hall
  have hdate : afterDate? cs = none := by
    rw [afterDate?, htake]
    split
    next => rfl
    next hfour =>
      rw [List.drop_eq_nil_of_le (by omega)]
      rfl
  rw [holds, hdate]

theorem numericMeaning_numeral (h : IsNumeral (c :: cs))
    (hword : (valueOf (c :: cs) : Int) ≤ maxWord) :
    numericMeaning (c :: cs) = .int (valueOf (c :: cs)) := by
  have hplain : Decimal.withoutSeparators (c :: cs) = c :: cs := by
    rw [Decimal.withoutSeparators, List.filter_eq_self]
    intro d hd
    rw [decide_eq_true_eq]
    rintro rfl
    exact absurd (h.digits '_' hd) (by decide)
  rw [numericMeaning, Timestamp.holds_digits h.digits, if_neg (by decide), hplain]
  dsimp only
  rw [h.integer?_eq hword]

/-- No word for something else starts with a digit. -/
theorem not_mem_words {words : List String}
    (hwords : (words.all fun w => !w.toList.head?.any Char.isDigit) = true)
    (hc : c.isDigit = true) : String.ofList (c :: cs) ∉ words := by
  intro hmem
  have hword := List.all_eq_true.mp hwords _ hmem
  simp [hc] at hword

theorem Meaning.ofPlain_numeral (h : IsNumeral (c :: cs))
    (hword : (valueOf (c :: cs) : Int) ≤ maxWord) :
    Meaning.ofPlain (String.ofList (c :: cs)) = .int (valueOf (c :: cs)) := by
  have hc := h.digits c List.mem_cons_self
  have hminus : c ≠ '-' := h.ne_of_not_isDigit (by decide)
  have hplus : c ≠ '+' := h.ne_of_not_isDigit (by decide)
  rw [Meaning.ofPlain, if_neg (not_mem_words (by decide +kernel) hc),
    if_neg (not_mem_words (by decide +kernel) hc), if_neg (not_mem_words (by decide +kernel) hc),
    if_neg (not_mem_words (by decide +kernel) hc), String.toList_ofList]
  split
  next hcons => exact absurd (List.cons.inj hcons).1 (h.ne_of_not_isDigit (by decide))
  next hcons =>
    obtain ⟨rfl, rfl⟩ := List.cons.inj hcons
    rw [if_neg fun hsign => hsign.1.elim hplus hminus, if_pos (.inl hc),
      numericMeaning_numeral h hword]
  next hnil => cases hnil

/-- A row of digits stands plain. -/
theorem inscribes_numeral (h : IsNumeral (c :: cs)) : Inscribes (c :: cs) (c :: cs) true := by
  have hnamed : ∀ d ∈ c :: cs, isNameChar d = true := fun d hd =>
    isNameChar_of_isDigit (h.digits d hd)
  have hplain : ∀ d ∈ c :: cs, isWhite d = false ∧ d ≠ ':' := fun d hd =>
    ⟨isWhite_of_isNameChar (hnamed d hd), ne_of_isNameChar (hnamed d hd) (by decide)⟩
  have hword : plainWord false (c :: cs) = c :: cs := by
    have hwhole := plainWord_append_of_ne hplain (show plainWord false [] = [] from rfl)
    rwa [List.append_nil] at hwhole
  have hsign : ¬ (c = '-' ∨ c = '?' ∨ c = ':') := by
    rintro (hc | hc | hc)
    · exact h.ne_of_not_isDigit (by decide) hc
    · exact h.ne_of_not_isDigit (by decide) hc
    · exact h.ne_of_not_isDigit (by decide) hc
  have hinscribes := Inscribes.plain ⟨List.cons_ne_nil c cs, hword⟩
    (reservedStarts_of_isNameChar (hnamed c List.mem_cons_self)) (fun hc => absurd hc hsign) .nil
  rwa [List.append_nil] at hinscribes

end

end Yaml

end HamScript
