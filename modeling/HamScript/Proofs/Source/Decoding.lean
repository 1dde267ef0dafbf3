/-
# Characters and the bytes they take

* the characters of a byte sequence take all its bytes, each its own (`byteCount_ofBytes`);
* decoding can be resumed after any of them (`ofBytes_drop_byteCount`);
* a line feed is never part of a longer character, so that the bytes before it and after it are
  decoded independently (`ofBytes_append_feed`), and line feeds are counted alike in bytes and in
  characters (`countFeeds_ofBytes`).
-/
import HamScript.Source.Glyph

namespace HamScript.Source.Glyph

/-- How many bytes the characters were read from. -/
def byteCount : List Glyph → Nat
  | [] => 0
  | g :: gs => g.size + byteCount gs

@[simp] theorem byteCount_nil : byteCount [] = 0 := rfl

@[simp] theorem byteCount_cons (g : Glyph) (gs : List Glyph) :
    byteCount (g :: gs) = g.size + byteCount gs := rfl

@[simp] theorem byteCount_append (as bs : List Glyph) :
    byteCount (as ++ bs) = byteCount as + byteCount bs := by
  induction as with
  | nil => exact (Nat.zero_add _).symm
  | cons g as ih => rw [List.cons_append, byteCount_cons, ih, byteCount_cons, Nat.add_assoc]

/-- How many of the characters are line feeds. -/
def countFeeds (gs : List Glyph) : Nat :=
  gs.countP (·.char == '\n')

@[simp] theorem countFeeds_nil : countFeeds [] = 0 := rfl

theorem countFeeds_cons (g : Glyph) (gs : List Glyph) :
    countFeeds (g :: gs) = countFeeds gs + if g.char = '\n' then 1 else 0 := by
  simp [countFeeds, List.countP_cons]

@[simp] theorem countFeeds_append (as bs : List Glyph) :
    countFeeds (as ++ bs) = countFeeds as + countFeeds bs :=
  List.countP_append

/-- A line feed. -/
def feed : Glyph :=
  ⟨'\n', 1⟩

/-! ## One character -/

/-- What is read at the front of the bytes `b :: rest`: one byte below `0x80`, one byte that begins
nothing, or a first byte and its tails, all of them `0x80` or more. -/
inductive First (b : Nat) (rest : List Nat) : Glyph → Prop
  | ascii : b < 0x80 → First b rest ⟨Char.ofNat b, 1⟩
  | replaced : 0x80 ≤ b → First b rest replacement
  | wide (tails more : List Nat) (v : Nat) :
      0x80 ≤ b → rest = tails ++ more → (∀ t ∈ tails, 0x80 ≤ t) → 0x80 ≤ v →
      First b rest ⟨Char.ofNat v, tails.length + 1⟩

theorem isTail_iff {b : Nat} : isTail b = true ↔ 0x80 ≤ b ∧ b ≤ 0xBF := by
  simp [isTail]

theorem secondBounds_low (b : Nat) :
    0x80 ≤ (secondBounds b).1 ∧ (b = 0xE0 → 0xA0 ≤ (secondBounds b).1) ∧
      (b = 0xF0 → 0x90 ≤ (secondBounds b).1) := by
  by_cases h₁ : b = 0xE0
  · subst h₁; decide
  · by_cases h₂ : b = 0xF0
    · subst h₂; decide
    · refine ⟨?_, fun h => absurd h h₁, fun h => absurd h h₂⟩
      simp only [secondBounds, h₁, h₂, if_false]
      split
      · decide
      · split <;> decide

theorem le_of_isSecond {b₀ b₁ : Nat} (h : isSecond b₀ b₁ = true) :
    0x80 ≤ b₁ ∧ (b₀ = 0xE0 → 0xA0 ≤ b₁) ∧ (b₀ = 0xF0 → 0x90 ≤ b₁) := by
  simp only [isSecond, Bool.and_eq_true, decide_eq_true_eq] at h
  obtain ⟨hlow, hE0, hF0⟩ := secondBounds_low b₀
  exact ⟨Nat.le_trans hlow h.1, fun hb => Nat.le_trans (hE0 hb) h.1,
    fun hb => Nat.le_trans (hF0 hb) h.1⟩

theorem first_readFirst (b : Nat) (rest : List Nat) : First b rest (readFirst b rest) := by
  unfold readFirst
  by_cases hb : b < 0x80
  · rw [if_pos hb]
    exact .ascii hb
  · have hb' : 0x80 ≤ b := Nat.le_of_not_lt hb
    have hreplaced : First b rest replacement := .replaced hb'
    rw [if_neg hb]
    split
    · split
      · split
        next b₁ more ht =>
          have h₁ := isTail_iff.mp ht
          exact .wide [b₁] more _ hb' rfl (by simp [h₁.1]) (by omega)
        next => exact hreplaced
      · exact hreplaced
    · split
      · split
        · split
          next b₁ b₂ more ht =>
            rw [Bool.and_eq_true] at ht
            have h₁ := le_of_isSecond ht.1
            have h₂ := isTail_iff.mp ht.2
            exact .wide [b₁, b₂] more _ hb' rfl (by simp [h₁.1, h₂.1]) (by omega)
          next => exact hreplaced
        · exact hreplaced
      · split
        · split
          · split
            next b₁ b₂ b₃ more ht =>
              rw [Bool.and_eq_true, Bool.and_eq_true] at ht
              have h₁ := le_of_isSecond ht.1.1
              have h₂ := isTail_iff.mp ht.1.2
              have h₃ := isTail_iff.mp ht.2
              exact .wide [b₁, b₂, b₃] more _ hb' rfl (by simp [h₁.1, h₂.1, h₃.1]) (by omega)
            next => exact hreplaced
          · exact hreplaced
        · exact hreplaced

theorem ofNat_ne_feed {v : Nat} (h : v ≠ 10) : Char.ofNat v ≠ '\n' := by
  intro heq
  by_cases hv : v.isValidChar
  · have hof : Char.ofNat v = Char.ofNatAux v hv := dif_pos hv
    exact h (congrArg Char.toNat (hof.symm.trans heq))
  · have hof : Char.ofNat v = '\x00' := dif_neg hv
    exact absurd (hof.symm.trans heq) (by decide)

/-- Only the byte 10 is read as a line feed. -/
theorem readFirst_char_eq_feed_iff {b : Nat} {rest : List Nat} :
    (readFirst b rest).char = '\n' ↔ b = 10 := by
  constructor
  · intro h
    have hfirst := first_readFirst b rest
    generalize readFirst b rest = g at h hfirst
    cases hfirst with
    | ascii hb => exact Classical.byContradiction fun hne => ofNat_ne_feed hne h
    | replaced hb => exact absurd h (by decide)
    | wide tails more v hb hrest htails hv => exact absurd h (ofNat_ne_feed (by omega))
  · rintro rfl
    rfl

/-- A character takes its first byte and bytes that are there, none of them a line feed. -/
theorem exists_tails (b : Nat) (rest : List Nat) : ∃ tails more, rest = tails ++ more ∧
    (readFirst b rest).size = tails.length + 1 ∧ 10 ∉ tails := by
  have hfirst := first_readFirst b rest
  generalize readFirst b rest = g at hfirst
  cases hfirst with
  | ascii hb => exact ⟨[], rest, rfl, rfl, List.not_mem_nil⟩
  | replaced hb => exact ⟨[], rest, rfl, rfl, List.not_mem_nil⟩
  | wide tails more v hb hrest htails hv =>
      exact ⟨tails, more, hrest, rfl, fun hmem => absurd (htails 10 hmem) (by decide)⟩

theorem isSecond_feed (b : Nat) : isSecond b 10 = false := by
  rw [Bool.eq_false_iff]
  intro h
  exact absurd (le_of_isSecond h).1 (by decide)

/-- What follows a line feed makes no difference to the characters before it. -/
theorem readFirst_append_feed (b : Nat) (rest more : List Nat) :
    readFirst b (rest ++ 10 :: more) = readFirst b rest := by
  have htail : isTail 10 = false := rfl
  unfold readFirst
  match rest with
  | [] => cases more with
      | nil => simp [htail]
      | cons b₂ more => cases more <;> simp [htail, isSecond_feed]
  | [b₁] => cases more <;> simp [htail]
  | [b₁, b₂] => simp [htail]
  | b₁ :: b₂ :: b₃ :: rest => simp

/-! ## All characters -/

theorem readFrom_skip : (skip : Nat) → (bs : List Nat) →
    readFrom skip bs = readFrom 0 (bs.drop skip)
  | 0, _ => rfl
  | _ + 1, [] => rfl
  | skip + 1, _ :: bs => readFrom_skip skip bs

theorem readFrom_cons (b : Nat) (rest : List Nat) : readFrom 0 (b :: rest) =
    readFirst b rest :: readFrom 0 (rest.drop ((readFirst b rest).size - 1)) := by
  rw [← readFrom_skip]
  rfl

/-- The first character and its tails can be taken off together. -/
theorem exists_readFrom_cons (b : Nat) (rest : List Nat) : ∃ tails more, rest = tails ++ more ∧
    (readFirst b rest).size = tails.length + 1 ∧ 10 ∉ tails ∧
    readFrom 0 (b :: rest) = readFirst b rest :: readFrom 0 more := by
  obtain ⟨tails, more, hrest, hsize, hfeed⟩ := exists_tails b rest
  refine ⟨tails, more, hrest, hsize, hfeed, ?_⟩
  rw [readFrom_cons, hsize, Nat.add_sub_cancel]
  subst hrest
  rw [List.drop_left]

theorem length_more_lt (b : Nat) {rest tails more : List Nat} (h : rest = tails ++ more) :
    more.length < (b :: rest).length := by
  rw [h, List.length_cons, List.length_append]
  omega

theorem byteCount_readFrom : (bs : List Nat) → byteCount (readFrom 0 bs) = bs.length
  | [] => rfl
  | b :: rest => by
      obtain ⟨tails, more, hrest, hsize, -, hread⟩ := exists_readFrom_cons b rest
      have ih := byteCount_readFrom more
      have hlength := congrArg List.length hrest
      rw [List.length_append] at hlength
      rw [hread, byteCount_cons, ih, hsize, List.length_cons]
      omega
termination_by bs => bs.length
decreasing_by exact length_more_lt b hrest

theorem countFeeds_readFrom : (bs : List Nat) → countFeeds (readFrom 0 bs) = bs.count 10
  | [] => rfl
  | b :: rest => by
      obtain ⟨tails, more, hrest, -, hfeed, hread⟩ := exists_readFrom_cons b rest
      have ih := countFeeds_readFrom more
      rw [hread, countFeeds_cons, ih]
      simp only [readFirst_char_eq_feed_iff]
      rw [hrest, List.count_cons, List.count_append, List.count_eq_zero.mpr hfeed, Nat.zero_add]
      simp
termination_by bs => bs.length
decreasing_by exact length_more_lt b hrest

theorem readFrom_append_feed (more : List Nat) : (bs : List Nat) →
    readFrom 0 (bs ++ 10 :: more) = readFrom 0 bs ++ feed :: readFrom 0 more
  | [] => rfl
  | b :: rest => by
      obtain ⟨tails, rest', hrest, hsize, -, hread⟩ := exists_readFrom_cons b rest
      have ih := readFrom_append_feed more rest'
      have hdrop : (rest ++ 10 :: more).drop tails.length = rest' ++ 10 :: more := by
        rw [hrest, List.append_assoc, List.drop_left]
      rw [hread, List.cons_append, readFrom_cons, readFirst_append_feed, hsize,
        Nat.add_sub_cancel, hdrop, ih]
      rfl
termination_by bs => bs.length
decreasing_by exact length_more_lt b hrest

theorem readFrom_drop_byteCount : (before : List Glyph) → (bs : List Nat) → (after : List Glyph) →
    readFrom 0 bs = before ++ after → readFrom 0 (bs.drop (byteCount before)) = after
  | [], _, _, h => h
  | g :: before, [], after, h => by simp [readFrom] at h
  | g :: before, b :: rest, after, h => by
      obtain ⟨tails, more, hrest, hsize, -, hread⟩ := exists_readFrom_cons b rest
      rw [hread, List.cons_append] at h
      obtain ⟨hg, hmore⟩ := List.cons.inj h
      have ih := readFrom_drop_byteCount before more after hmore
      have hdrop : (b :: rest).drop (byteCount (g :: before)) = more.drop (byteCount before) := by
        rw [byteCount_cons, ← hg, hsize, Nat.add_right_comm, List.drop_succ_cons, hrest,
          ← List.drop_drop, List.drop_left]
      rw [hdrop, ih]

theorem size_pos_of_mem_readFrom {g : Glyph} : (bs : List Nat) → g ∈ readFrom 0 bs → 0 < g.size
  | [], hg => absurd hg List.not_mem_nil
  | b :: rest, hg => by
      obtain ⟨tails, more, hrest, hsize, -, hread⟩ := exists_readFrom_cons b rest
      rw [hread] at hg
      rcases List.mem_cons.mp hg with rfl | hg
      · rw [hsize]
        exact Nat.succ_pos _
      · exact size_pos_of_mem_readFrom more hg
termination_by bs => bs.length
decreasing_by exact length_more_lt b hrest

/-! ## Bytes -/

/-- Every character takes a byte at least. -/
theorem size_pos_of_mem_ofBytes {bytes : List UInt8} {g : Glyph} (hg : g ∈ ofBytes bytes) :
    0 < g.size :=
  size_pos_of_mem_readFrom _ hg

theorem byteCount_ofBytes (bytes : List UInt8) : byteCount (ofBytes bytes) = bytes.length := by
  rw [ofBytes, byteCount_readFrom, List.length_map]

theorem countFeeds_ofBytes (bytes : List UInt8) : countFeeds (ofBytes bytes) = bytes.count 10 := by
  rw [ofBytes, countFeeds_readFrom, List.count, List.countP_map]
  refine List.countP_congr fun b _ => ?_
  simp [← UInt8.toNat_inj]

/-- The bytes around a line feed are decoded independently. -/
theorem ofBytes_append_feed (a b : List UInt8) :
    ofBytes (a ++ 10 :: b) = ofBytes a ++ feed :: ofBytes b := by
  rw [ofBytes, List.map_append, List.map_cons]
  exact readFrom_append_feed _ _

/-- Decoding can be resumed after any of the characters. -/
theorem ofBytes_drop_byteCount {bytes : List UInt8} {before after : List Glyph}
    (h : ofBytes bytes = before ++ after) : ofBytes (bytes.drop (byteCount before)) = after := by
  rw [ofBytes, List.map_drop]
  exact readFrom_drop_byteCount before _ after h

end HamScript.Source.Glyph
