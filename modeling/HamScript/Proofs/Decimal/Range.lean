/-
# The range of the doubles

The largest double is `(2 ^ 53 - 1) * 2 ^ 971`, and the next number with 53 binary digits would be
`2 ^ 1024`.  What lies below the middle of the two is rounded to a double; the middle itself goes to
the even one of the two counts, which is the upper one, and so do all numbers above it: they become
infinite (`nearestBits_lt_infinityBits_iff`, and for decimals `bits_lt_infinityBits_iff`).
-/
import HamScript.Decimal.Reading

namespace HamScript.Decimal

/-! ## Rounding a quotient -/

section
variable {num den c : Nat}

theorem le_roundDiv (hden : 0 < den) (h : c * den ≤ num) : c ≤ roundDiv num den := by
  have hquot : c ≤ num / den := (Nat.le_div_iff_mul_le hden).mpr h
  unfold roundDiv
  dsimp only
  split <;> omega

theorem roundDiv_le (hden : 0 < den) (h : num < c * den) : roundDiv num den ≤ c := by
  have hquot : num / den < c := (Nat.div_lt_iff_lt_mul hden).mpr h
  unfold roundDiv
  dsimp only
  split <;> omega

/-- The half above an odd number goes up. -/
theorem roundDiv_le_iff (hden : 0 < den) (hc : c % 2 = 1) :
    roundDiv num den ≤ c ↔ 2 * num < (2 * c + 1) * den := by
  have hnum : den * (num / den) + num % den = num := Nat.div_add_mod num den
  have hrem : num % den < den := Nat.mod_lt num hden
  have hexpand : (2 * c + 1) * den = 2 * (c * den) + den := by
    rw [Nat.add_mul, Nat.mul_assoc, Nat.one_mul]
  rcases Nat.lt_trichotomy (num / den) c with hlt | heq | hgt
  · have hbelow : num < c * den := (Nat.div_lt_iff_lt_mul hden).mp hlt
    have hround := roundDiv_le hden hbelow
    omega
  · rw [heq, Nat.mul_comm] at hnum
    unfold roundDiv
    dsimp only
    rw [heq]
    split <;> omega
  · have habove : (c + 1) * den ≤ num := (Nat.le_div_iff_mul_le hden).mp hgt
    have hround := le_roundDiv hden habove
    rw [Nat.add_mul, Nat.one_mul] at habove
    omega

end

/-! ## Powers -/

theorem twoTo_pos (n : Nat) : 0 < twoTo n :=
  Nat.two_pow_pos n

theorem twoTo_add (m n : Nat) : twoTo (m + n) = twoTo m * twoTo n :=
  Nat.pow_add 2 m n

theorem tenTo_pos (n : Nat) : 0 < tenTo n :=
  Nat.pow_pos (by decide)

theorem tenTo_add (m n : Nat) : tenTo (m + n) = tenTo m * tenTo n :=
  Nat.pow_add 10 m n

/-- Powers on both sides matter by their difference. -/
theorem mul_twoTo_le_iff {a b m n m' n' : Nat} (h : m + n' = m' + n) :
    a * twoTo m ≤ b * twoTo n ↔ a * twoTo m' ≤ b * twoTo n' := by
  have hleft : a * twoTo m ≤ b * twoTo n ↔ a * twoTo m * twoTo n' ≤ b * twoTo n * twoTo n' :=
    (Nat.mul_le_mul_right_iff (twoTo_pos n')).symm
  have hright : a * twoTo m' ≤ b * twoTo n' ↔ a * twoTo m' * twoTo n ≤ b * twoTo n' * twoTo n :=
    (Nat.mul_le_mul_right_iff (twoTo_pos n)).symm
  rw [hleft, hright, Nat.mul_assoc, Nat.mul_assoc, Nat.mul_assoc, Nat.mul_assoc, ← twoTo_add,
    ← twoTo_add, ← twoTo_add, ← twoTo_add, h, Nat.add_comm n n']

/-! ## Units -/

theorem scaled_eq (num den : Nat) (u : Int) :
    scaled num den u = (num * twoTo (-u).toNat, den * twoTo u.toNat) := by
  unfold scaled
  split
  next h =>
    have hzero : (-u).toNat = 0 := by omega
    rw [hzero]
    exact Prod.ext (Nat.mul_one num).symm rfl
  next h =>
    have hzero : u.toNat = 0 := by omega
    rw [hzero]
    exact Prod.ext rfl (Nat.mul_one den).symm

/-- The fraction `num / den` is at least `c` units of `2 ^ u`. -/
def AtLeast (num den c : Nat) (u : Int) : Prop :=
  c * (scaled num den u).2 ≤ (scaled num den u).1

section
variable {num den c c' : Nat} {u : Int}

theorem atLeast_iff : AtLeast num den c u ↔ c * den * twoTo u.toNat ≤ num * twoTo (-u).toNat := by
  rw [AtLeast, scaled_eq, Nat.mul_assoc]

theorem AtLeast.mono (h : AtLeast num den c u) (hc : c' ≤ c) : AtLeast num den c' u :=
  Nat.le_trans (Nat.mul_le_mul_right _ hc) h

/-- A unit that is `2 ^ k` times as large is counted `2 ^ k` times less often. -/
theorem atLeast_add (k : Nat) : AtLeast num den c (u + k) ↔ AtLeast num den (c * twoTo k) u := by
  have hpow : c * twoTo k * den * twoTo u.toNat = c * den * twoTo (k + u.toNat) := by
    rw [twoTo_add, Nat.mul_right_comm c, Nat.mul_assoc]
  rw [atLeast_iff, atLeast_iff, hpow]
  exact mul_twoTo_le_iff (by omega)

/-- The guess of the unit from the binary digits of `num` and `den`. -/
theorem atLeast_guess (hnum : num ≠ 0) (hden : den ≠ 0) :
    AtLeast num den (twoTo 51) ((Nat.log2 num : Int) - Nat.log2 den - 52) ∧
      ¬ AtLeast num den (twoTo 53) ((Nat.log2 num : Int) - Nat.log2 den - 52) := by
  have hnum₁ := Nat.log2_self_le hnum
  have hnum₂ := @Nat.lt_log2_self num
  have hden₁ := Nat.log2_self_le hden
  have hden₂ := @Nat.lt_log2_self den
  generalize num.log2 = a at hnum₁ hnum₂ ⊢
  generalize den.log2 = b at hden₁ hden₂ ⊢
  rw [atLeast_iff, atLeast_iff, Nat.not_le]
  constructor
  · calc
      twoTo 51 * den * twoTo ((a : Int) - b - 52).toNat
        ≤ twoTo 51 * twoTo (b + 1) * twoTo ((a : Int) - b - 52).toNat :=
          Nat.mul_le_mul_right _ (Nat.mul_le_mul_left _ (Nat.le_of_lt hden₂))
      _ = twoTo (51 + (b + 1) + ((a : Int) - b - 52).toNat) := by rw [← twoTo_add, ← twoTo_add]
      _ = twoTo (a + (-((a : Int) - b - 52)).toNat) := by congr 1; omega
      _ = twoTo a * twoTo (-((a : Int) - b - 52)).toNat := twoTo_add ..
      _ ≤ num * twoTo (-((a : Int) - b - 52)).toNat := Nat.mul_le_mul_right _ hnum₁
  · calc
      num * twoTo (-((a : Int) - b - 52)).toNat
        < twoTo (a + 1) * twoTo (-((a : Int) - b - 52)).toNat :=
          Nat.mul_lt_mul_of_pos_right hnum₂ (twoTo_pos _)
      _ = twoTo (a + 1 + (-((a : Int) - b - 52)).toNat) := (twoTo_add ..).symm
      _ = twoTo (53 + b + ((a : Int) - b - 52).toNat) := by congr 1; omega
      _ = twoTo 53 * twoTo b * twoTo ((a : Int) - b - 52).toNat := by rw [twoTo_add, twoTo_add]
      _ ≤ twoTo 53 * den * twoTo ((a : Int) - b - 52).toNat :=
          Nat.mul_le_mul_right _ (Nat.mul_le_mul_left _ hden₁)

/-- In its unit the fraction has at most 53 binary digits before the point, and exactly so many if
the unit is not the least one. -/
theorem atLeast_unitOf (hnum : num ≠ 0) (hden : den ≠ 0) :
    ¬ AtLeast num den (twoTo 53) (unitOf num den) ∧
      (leastUnit < unitOf num den → AtLeast num den (twoTo 52) (unitOf num den)) := by
  obtain ⟨hlow, hhigh⟩ := atLeast_guess hnum hden
  unfold unitOf
  generalize (Nat.log2 num : Int) - Nat.log2 den - 52 = guess at hlow hhigh ⊢
  dsimp only
  have hpos : 0 < (scaled num den guess).2 := by
    rw [scaled_eq]
    exact Nat.mul_pos (Nat.pos_of_ne_zero hden) (twoTo_pos _)
  -- the unit before the least one comes in
  have hunit : ∀ u, u = (if (scaled num den guess).1 / (scaled num den guess).2 < twoTo 52
      then guess - 1 else guess) →
      AtLeast num den (twoTo 52) u ∧ ¬ AtLeast num den (twoTo 53) u := by
    rintro u rfl
    split
    next hsmall =>
      have hbelow : ¬ AtLeast num den (twoTo 52) guess :=
        Nat.not_le.mpr ((Nat.div_lt_iff_lt_mul hpos).mp hsmall)
      have hdouble : ∀ c, AtLeast num den c guess ↔ AtLeast num den (c * twoTo 1) (guess - 1) := by
        intro c
        rw [← atLeast_add]
        simp
      exact ⟨(hdouble (twoTo 51)).mp hlow, mt (hdouble (twoTo 52)).mpr hbelow⟩
    next hlarge =>
      exact ⟨(Nat.le_div_iff_mul_le hpos).mp (Nat.not_lt.mp hlarge), hhigh⟩
  generalize hu : (if (scaled num den guess).1 / (scaled num den guess).2 < twoTo 52
      then guess - 1 else guess) = u
  obtain ⟨hlow, hhigh⟩ := hunit u hu.symm
  rcases Int.le_total leastUnit u with hle | hle
  · rw [Int.max_eq_left hle]
    exact ⟨hhigh, fun _ => hlow⟩
  · rw [Int.max_eq_right hle]
    refine ⟨fun hleast => hhigh ?_, fun hlt => absurd hlt (Int.lt_irrefl _)⟩
    obtain ⟨k, hk⟩ := Int.le.dest hle
    rw [← hk, atLeast_add] at hleast
    exact hleast.mono (Nat.le_mul_of_pos_right _ (twoTo_pos k))

/-! ## The last double -/

/-- The middle between the largest double, `(2 ^ 53 - 1) * 2 ^ 971`, and `2 ^ 1024`. -/
def firstInfinite : Nat :=
  (twoTo 54 - 1) * twoTo 970

/-- The exponent as a variable, so that its power is not computed. -/
theorem exists_firstInfinite : ∃ e, e = 970 ∧ firstInfinite = (twoTo 54 - 1) * twoTo e :=
  ⟨970, rfl, by rw [firstInfinite]⟩

theorem not_atLeast_iff {e : Nat} : ¬ AtLeast num den c e ↔ num < c * twoTo e * den := by
  have hone : num * twoTo (-(e : Int)).toNat = num := by
    rw [Int.toNat_neg_natCast]
    exact Nat.mul_one num
  rw [atLeast_iff, hone, Nat.not_le, Nat.mul_right_comm, Int.toNat_natCast]

/-- Rounding to an odd count or below it, in terms of half a unit. -/
theorem roundDiv_scaled_le_iff (hden : den ≠ 0) (hc : c % 2 = 1) {e : Nat} :
    roundDiv (scaled num den (e + 1)).1 (scaled num den (e + 1)).2 ≤ c ↔
      ¬ AtLeast num den (2 * c + 1) e := by
  have hscaled : scaled num den (e + 1) = (num, 2 * (twoTo e * den)) := by
    have hneg : (-((e : Int) + 1)).toNat = 0 := by omega
    have hpos : ((e : Int) + 1).toNat = 1 + e := by omega
    rw [scaled_eq, hneg, hpos, twoTo_add, Nat.mul_left_comm, Nat.mul_comm den]
    exact Prod.ext (Nat.mul_one num) rfl
  have hden' : 0 < 2 * (twoTo e * den) :=
    Nat.mul_pos Nat.two_pos (Nat.mul_pos (twoTo_pos e) (Nat.pos_of_ne_zero hden))
  rw [hscaled, roundDiv_le_iff hden' hc, not_atLeast_iff, Nat.mul_assoc,
    Nat.mul_left_comm (2 * c + 1) 2]
  exact Nat.mul_lt_mul_left Nat.two_pos

/-- A fraction is rounded to a finite double exactly if it lies below the middle. -/
theorem nearestBits_lt_infinityBits_iff (hden : den ≠ 0) :
    nearestBits num den < infinityBits ↔ num < firstInfinite * den := by
  obtain ⟨e, he, hfirst⟩ := exists_firstInfinite
  rw [hfirst]
  by_cases hnum : num = 0
  · subst hnum
    have hzero : nearestBits 0 den = 0 := rfl
    rw [hzero]
    refine iff_of_true (by decide) ?_
    exact Nat.mul_pos (Nat.mul_pos (by decide) (twoTo_pos _)) (Nat.pos_of_ne_zero hden)
  rw [← not_atLeast_iff, nearestBits, if_neg hnum]
  obtain ⟨hhigh, hlow⟩ := atLeast_unitOf hnum hden
  have hleast : -1074 ≤ unitOf num den := Int.le_max_right _ _
  generalize unitOf num den = u at hhigh hlow hleast
  have hpos : 0 < (scaled num den u).2 := by
    rw [scaled_eq]
    exact Nat.mul_pos (Nat.pos_of_ne_zero hden) (twoTo_pos _)
  have hround : roundDiv (scaled num den u).1 (scaled num den u).2 ≤ 2 * 4503599627370496 :=
    roundDiv_le hpos (Nat.not_le.mp hhigh)
  -- 4503599627370496 is `twoTo 52`: a number, so that the field and the count can be compared
  have hbits : ∀ count, min ((u - leastUnit).toNat * twoTo 52 + count) infinityBits < infinityBits ↔
      (u + 1074).toNat * 4503599627370496 + count < 2047 * 4503599627370496 := by
    intro count
    have hfield : (u - leastUnit).toNat * twoTo 52 = (u + 1074).toNat * 4503599627370496 := rfl
    have hinf : infinityBits = 2047 * 4503599627370496 := rfl
    omega
  dsimp only
  rw [hbits]
  rcases Int.lt_trichotomy u (e + 1) with hlt | heq | hgt
  · -- there is room for a carry into the exponent field
    refine iff_of_true (by omega) fun hlarge => hhigh ?_
    obtain ⟨k, hk⟩ := Int.le.dest (Int.le_of_lt_add_one hlt)
    rw [← hk, atLeast_add] at hlarge
    refine hlarge.mono (Nat.le_trans ?_ (Nat.le_mul_of_pos_right _ (twoTo_pos k)))
    decide
  · -- a carry makes the exponent field that of infinity
    have hodd : roundDiv (scaled num den u).1 (scaled num den u).2 ≤ 9007199254740991 ↔
        ¬ AtLeast num den (twoTo 54 - 1) e := by
      rw [heq]
      exact roundDiv_scaled_le_iff hden rfl
    rw [← hodd]
    omega
  · have hcount : AtLeast num den (twoTo 52) u := hlow (by unfold leastUnit; omega)
    have hround' : 4503599627370496 ≤ roundDiv (scaled num den u).1 (scaled num den u).2 :=
      le_roundDiv hpos hcount
    refine iff_of_false (by omega) (not_not_intro ?_)
    obtain ⟨k, hk⟩ := Int.le.dest (Int.add_one_le_of_lt hgt)
    have hu : ((e : Int) + (2 + k : Nat)) = u := by omega
    rw [← hu, atLeast_add, twoTo_add, ← Nat.mul_assoc] at hcount
    refine hcount.mono (Nat.le_trans ?_ (Nat.le_mul_of_pos_right _ (twoTo_pos k)))
    decide

end

/-! ## Decimals -/

theorem lt_tenTo_digitCount (n : Nat) : n < tenTo (digitCount n) :=
  (Nat.length_toDigits_le_iff (by decide) Nat.length_toDigits_pos).mp (Nat.le_refl _)

theorem tenTo_le_of_lt_digitCount {n k : Nat} (hn : n ≠ 0) (hk : k < digitCount n) :
    tenTo k ≤ n := by
  cases k with
  | zero => exact Nat.pos_of_ne_zero hn
  | succ k =>
      have hmore := mt (Nat.length_toDigits_le_iff (by decide) k.succ_pos).mpr (Nat.not_le.mpr hk)
      exact Nat.not_lt.mp hmore

theorem firstInfinite_le {k : Nat} (hk : k = 310) : firstInfinite ≤ tenTo k := by
  subst hk
  decide +kernel

/-- A decimal with `len` digits after the point is rounded to a finite double exactly if it lies
below the middle.  Where the number of digits alone decides, it decides rightly. -/
theorem nearestBitsOfDecimal_lt_infinityBits_iff (n len : Nat) :
    nearestBitsOfDecimal n (-(len : Int)) < infinityBits ↔ n < firstInfinite * tenTo len := by
  have hbound : tenTo len ≤ firstInfinite * tenTo len :=
    Nat.le_mul_of_pos_left _ (by decide +kernel)
  have hzero : 0 < infinityBits := by decide
  unfold nearestBitsOfDecimal
  split
  next hn =>
    subst hn
    exact iff_of_true hzero (Nat.lt_of_lt_of_le (tenTo_pos len) hbound)
  next hn =>
    split
    next hlarge =>
      refine iff_of_false (Nat.lt_irrefl _) (Nat.not_lt.mpr ?_)
      obtain ⟨k, hk⟩ : ∃ k, k = 310 := ⟨310, rfl⟩
      calc
        firstInfinite * tenTo len ≤ tenTo k * tenTo len :=
          Nat.mul_le_mul_right _ (firstInfinite_le hk)
        _ = tenTo (k + len) := (tenTo_add k len).symm
        _ ≤ n := tenTo_le_of_lt_digitCount hn (by omega)
    next =>
      split
      next hsmall =>
        refine iff_of_true hzero (Nat.lt_of_lt_of_le (lt_tenTo_digitCount n) ?_)
        have hcount : digitCount n ≤ len := by omega
        exact Nat.le_trans (Nat.pow_le_pow_right (by decide) hcount) hbound
      next =>
        split
        next hwhole =>
          have hlen : len = 0 := by omega
          subst hlen
          have hone : n * tenTo (-((0 : Nat) : Int)).toNat = n := Nat.mul_one n
          have hzeroth : tenTo 0 = 1 := rfl
          rw [hone, hzeroth]
          exact nearestBits_lt_infinityBits_iff Nat.one_ne_zero
        next =>
          have hlen : (-(-(len : Int))).toNat = len := by omega
          rw [hlen]
          exact nearestBits_lt_infinityBits_iff (Nat.ne_of_gt (tenTo_pos len))

/-- A number of digits around a point is within the range of the doubles exactly if it lies below
the middle. -/
theorem Reading.bits_lt_infinityBits_iff (whole fraction : List Char) :
    (Reading.mk whole fraction 0).bits < infinityBits ↔
      valueOf (whole ++ fraction) < firstInfinite * tenTo fraction.length := by
  rw [Reading.bits, Int.zero_sub]
  exact nearestBitsOfDecimal_lt_infinityBits_iff _ _

end HamScript.Decimal
