/-
# A buffer is a place in a source

A buffer keeps the last few characters, so that they can be taken back, and the characters that have
been taken back.  All this is one place in the source: `b.Stands behind after n` says that the
characters `behind` have been read, the latest first, that the characters `after` are still to come,
and that at least `n` of those behind can be taken back.

    reading        moves one character from `after` to `behind`   (`meets_read`)
    taking back    moves one character from `behind` to `after`   (`meets_back`)
    looking        leaves both as they are                        (`meets_peek`)

`Meets r b Q` says that reading with `r` from the buffer `b` comes to a result, so nothing is taken
back that has been forgotten, and that `Q` holds of the result and of the buffer that is left.
-/
import HamScript.Proofs.Token.Scanning
import HamScript.Source.Buffer

namespace HamScript.Source

/-! ## Characters with their places -/

/-- Where a source goes on after the characters `behind`, of which the latest comes first. -/
def spot (behind : List Glyph) : Position :=
  Position.start.afterAll behind.reverse

@[simp] theorem spot_nil : spot [] = .start := rfl

@[simp] theorem spot_cons (g : Glyph) (behind : List Glyph) :
    spot (g :: behind) = (spot behind).after g := by
  simp [spot, Position.afterAll_append]

@[simp] theorem spot_reverse_append (taken behind : List Glyph) :
    spot (taken.reverse ++ behind) = (spot behind).afterAll taken := by
  simp [spot, Position.afterAll_append]

namespace Seen

/-- The characters `gs`, which stand from `p` on, as they are seen. -/
def ofGlyphs (p : Position) : List Glyph → List Seen
  | [] => []
  | g :: gs => ofGlyph p g :: ofGlyphs (p.after g) gs

/-- The characters `behind`, of which the latest comes first, as they were seen. -/
def behind : List Glyph → List Seen
  | [] => []
  | g :: gs => ofGlyph (spot gs) g :: behind gs

theorem map_char_ofGlyphs (p : Position) (gs : List Glyph) :
    (ofGlyphs p gs).map Seen.char = gs.map Glyph.char := by
  induction gs generalizing p with
  | nil => rfl
  | cons g gs ih => simp [ofGlyphs, ofGlyph, ih]

/-- Where the last of the characters begins. -/
theorem start_getLastD_ofGlyphs (p : Position) (gs : List Glyph) (g : Glyph) (s : Seen) :
    ((ofGlyphs p (g :: gs)).getLastD s).start = p.afterAll (g :: gs).dropLast := by
  induction gs generalizing p g s with
  | nil => rfl
  | cons g' gs ih => exact ih (p.after g) g' (ofGlyph p g)

end Seen

/-- The characters `behind` have been read, the latest first, and `after` are still to come.  At
least `n` of those behind can be taken back. -/
structure Buffer.Stands (behind after : List Glyph) (n : Nat) (b : Buffer) : Prop where
  position_eq : b.position = spot behind
  /-- The latest characters are remembered. -/
  past : b.past <+: Seen.behind behind
  bounded : b.past.length ≤ memory
  remembers : n ≤ b.past.length
  /-- The characters that have been taken back are the next ones. -/
  ahead : ∃ near, after = near ++ b.rest ∧ b.ahead = Seen.ofGlyphs (spot behind) near

theorem Buffer.stands_start (gs : List Glyph) : (Buffer.start gs).Stands [] gs 0 where
  position_eq := rfl
  past := List.nil_prefix
  bounded := Nat.zero_le _
  remembers := Nat.le_refl 0
  ahead := ⟨[], rfl, rfl⟩

section
variable {b : Buffer} {behind after : List Glyph} {g : Glyph} {n m : Nat}

theorem Buffer.Stands.mono (h : b.Stands behind after n) (hle : m ≤ n) : b.Stands behind after m :=
  { h with remembers := Nat.le_trans hle h.remembers }

theorem Buffer.Stands.remaining_eq (h : b.Stands behind after n) : b.remaining = after.length := by
  obtain ⟨near, rfl, hahead⟩ := h.ahead
  have hlength : ∀ p, (Seen.ofGlyphs p near).length = near.length := by
    intro p
    rw [← List.length_map (f := Seen.char), Seen.map_char_ofGlyphs, List.length_map]
  rw [remaining, hahead, hlength, List.length_append]

/-- What is remembered after one more character. -/
theorem Buffer.Stands.pass (h : b.Stands behind after n) (hn : n < memory) (g : Glyph) :
    let past := (Seen.ofGlyph (spot behind) g :: b.past).take memory
    past <+: Seen.behind (g :: behind) ∧ past.length ≤ memory ∧ n + 1 ≤ past.length := by
  intro past
  refine ⟨?_, List.length_take_le _ _, ?_⟩
  · exact (List.take_prefix memory _).trans (List.prefix_cons_inj _ |>.mpr h.past)
  · rw [List.length_take, List.length_cons]
    exact Nat.le_min.mpr ⟨hn, Nat.succ_le_succ h.remembers⟩

theorem Buffer.Stands.next?_cons (h : b.Stands behind (g :: after) n) (hn : n < memory) :
    ∃ b', b.next? = some (.ofGlyph (spot behind) g, b') ∧
      b'.Stands (g :: behind) after (n + 1) := by
  obtain ⟨hpast, hbounded, hremembers⟩ := h.pass hn g
  obtain ⟨position, past, ahead, rest⟩ := b
  obtain ⟨near, hafter, rfl⟩ := h.ahead
  obtain rfl : position = spot behind := h.position_eq
  cases near with
  | nil =>
      obtain rfl : g :: after = rest := hafter
      exact ⟨_, rfl, (spot_cons g behind).symm, hpast, hbounded, hremembers, [], rfl, rfl⟩
  | cons g' near =>
      obtain ⟨rfl, rfl⟩ := List.cons.inj hafter
      refine ⟨_, rfl, (spot_cons g behind).symm, hpast, hbounded, hremembers, near, rfl, ?_⟩
      rw [spot_cons]

theorem Buffer.Stands.next?_nil (h : b.Stands behind [] n) : b.next? = none := by
  obtain ⟨position, past, ahead, rest⟩ := b
  obtain ⟨near, hafter, rfl⟩ := h.ahead
  obtain ⟨rfl, rfl⟩ := List.append_eq_nil_iff.mp hafter.symm
  rfl

theorem Buffer.Stands.back? (h : b.Stands (g :: behind) after (n + 1)) :
    ∃ b', b.back? = some b' ∧ b'.Stands behind (g :: after) n := by
  obtain ⟨position, past, ahead, rest⟩ := b
  obtain ⟨near, rfl, rfl⟩ := h.ahead
  cases past with
  | nil => exact absurd h.remembers (Nat.not_succ_le_zero n)
  | cons s past =>
      obtain ⟨rfl, hpast⟩ := List.cons_prefix_cons.mp h.past
      refine ⟨_, rfl, rfl, hpast, ?_, Nat.le_of_succ_le_succ h.remembers, g :: near, rfl, ?_⟩
      · exact Nat.le_of_succ_le h.bounded
      · rw [spot_cons]
        rfl

end

/-! ## Reading -/

namespace Reads

/-- Reading from the buffer comes to a result, and `Q` holds of it and of the buffer that is
left. -/
def Meets {α : Type} (r : Reads α) (b : Buffer) (Q : α → Buffer → Prop) : Prop :=
  ∃ a b', r b = some (a, b') ∧ Q a b'

section
variable {α β : Type} {b : Buffer} {Q : α → Buffer → Prop} {R : β → Buffer → Prop}

theorem Meets.mono {r : Reads α} {Q' : α → Buffer → Prop} (h : Meets r b Q)
    (hQ : ∀ a b', Q a b' → Q' a b') : Meets r b Q' := by
  obtain ⟨a, b', hr, hq⟩ := h
  exact ⟨a, b', hr, hQ a b' hq⟩

theorem Meets.bind {r : Reads α} {f : α → Reads β} (h : Meets r b Q)
    (hf : ∀ a b', Q a b' → Meets (f a) b' R) : Meets (r >>= f) b R := by
  obtain ⟨a, b', hr, hq⟩ := h
  obtain ⟨c, b'', hfa, hc⟩ := hf a b' hq
  refine ⟨c, b'', ?_, hc⟩
  show (r b).bind (fun p => f p.1 p.2) = some (c, b'')
  rw [hr]
  exact hfa

theorem meets_pure {a : α} (h : Q a b) : Meets (pure a) b Q :=
  ⟨a, b, rfl, h⟩

theorem meets_bounded {r : Nat → Reads α} (h : Meets (r b.remaining) b Q) :
    Meets (bounded r) b Q :=
  h

theorem meets_get {Q : Buffer → Buffer → Prop} (h : Q b b) : Meets get b Q :=
  ⟨b, b, rfl, h⟩

end

section
variable {b : Buffer} {behind after : List Glyph} {g : Glyph} {n : Nat}

theorem meets_read (h : b.Stands behind (g :: after) n) (hn : n < Buffer.memory) :
    Meets read b fun s b' => s = some (.ofGlyph (spot behind) g) ∧
      b'.Stands (g :: behind) after (n + 1) := by
  obtain ⟨b', hnext, hb'⟩ := h.next?_cons hn
  refine ⟨_, b', ?_, rfl, hb'⟩
  simp [read, hnext]

theorem meets_read_nil (h : b.Stands behind [] n) :
    Meets read b fun s b' => s = none ∧ b'.Stands behind [] n := by
  refine ⟨none, b, ?_, rfl, h⟩
  simp [read, h.next?_nil]

theorem meets_back (h : b.Stands (g :: behind) after (n + 1)) :
    Meets back b fun _ b' => b'.Stands behind (g :: after) n := by
  obtain ⟨b', hback, hb'⟩ := h.back?
  refine ⟨(), b', ?_, hb'⟩
  simp [back, hback]

/-- Looking at the next character, of which there may be none. -/
theorem meets_peek (h : b.Stands behind after n) (hn : n < Buffer.memory) :
    Meets peek b fun c b' => c = after.head?.map Glyph.char ∧ b'.Stands behind after n := by
  cases after with
  | nil =>
      refine (meets_read_nil h).bind ?_
      rintro s b' ⟨rfl, hb'⟩
      exact meets_pure ⟨rfl, hb'⟩
  | cons g after =>
      refine (meets_read h hn).bind ?_
      rintro s b' ⟨rfl, hb'⟩
      refine (meets_back hb').bind ?_
      intro _ b'' hb''
      exact meets_pure ⟨rfl, hb''⟩

/-- Reading while characters are of a class.  The first one that is not is taken back. -/
theorem meets_takeWhile (p : Char → Bool) {bound : Nat} (h : b.Stands behind after 0)
    (hbound : after.length ≤ bound) :
    Meets (takeWhile p bound) b fun seen b' =>
      seen = Seen.ofGlyphs (spot behind) (after.takeWhile fun g => p g.char) ∧
      b'.Stands ((after.takeWhile fun g => p g.char).reverse ++ behind)
        (after.dropWhile fun g => p g.char) 0 := by
  induction bound generalizing b behind after with
  | zero =>
      obtain rfl := List.length_eq_zero_iff.mp (Nat.le_zero.mp hbound)
      exact meets_pure ⟨rfl, h⟩
  | succ bound ih =>
      cases after with
      | nil =>
          refine (meets_read_nil h).bind ?_
          rintro s b' ⟨rfl, hb'⟩
          exact meets_pure ⟨rfl, hb'⟩
      | cons g after =>
          refine (meets_read h (by decide)).bind ?_
          rintro s b' ⟨rfl, hb'⟩
          dsimp only [Seen.ofGlyph]
          by_cases hp : p g.char = true
          · rw [if_pos hp]
            refine (ih (hb'.mono (Nat.zero_le 1)) (Nat.le_of_succ_le_succ hbound)).bind ?_
            rintro seen b'' ⟨rfl, hb''⟩
            refine meets_pure ⟨?_, ?_⟩
            · simp only [List.takeWhile_cons, hp, if_true, spot_cons]
              rfl
            · simpa [List.takeWhile_cons, List.dropWhile_cons, hp] using hb''
          · rw [if_neg hp]
            refine (meets_back hb').bind ?_
            intro _ b'' hb''
            refine meets_pure ⟨?_, ?_⟩
            · simp only [List.takeWhile_cons, hp]
              rfl
            · simpa [List.takeWhile_cons, List.dropWhile_cons, hp] using hb''

end

end Reads

end HamScript.Source
