/-
# The buffer of a lexer is a cursor

A lexer reads through a buffer that remembers a few characters, so that they can be taken back, and
that keeps those which have been taken back.  In terms of the whole source this is one number:
`b.At source k` says that the buffer stands in front of character number `k`.

    position        the boundary behind the first `k` characters
    past            the last of these, at most `memory` of them
    ahead, rest     the characters from number `k` on

Reading gives character `k` and goes on to `k + 1`, taking back goes from `k` to `k - 1`, and
looking at the next character gives character `k` and stays.  A character is taken back only where
one is remembered: wherever a lexer can be led, reading the next token comes to a result.
-/
import HamScript.Proofs.Token.Positions

namespace HamScript

namespace Source

/-! ## The characters of a source, by number -/

namespace Seen

/-- The characters of a source as they are seen, each with the boundaries before and behind it. -/
def all (source : List Glyph) : List Seen :=
  source.mapIdx fun i g => ⟨g.char, Glyph.boundary source i, Glyph.boundary source (i + 1)⟩

theorem ofGlyphs_append (p : Position) (gs gs' : List Glyph) :
    ofGlyphs p (gs ++ gs') = ofGlyphs p gs ++ ofGlyphs (p.afterAll gs) gs' := by
  induction gs generalizing p with
  | nil => rfl
  | cons g gs ih => simp only [List.cons_append, ofGlyphs, ih, Position.afterAll_cons]

theorem length_ofGlyphs (p : Position) (gs : List Glyph) : (ofGlyphs p gs).length = gs.length := by
  rw [← List.length_map (f := Seen.char), map_char_ofGlyphs, List.length_map]

theorem getElem?_ofGlyphs (p : Position) (gs : List Glyph) (i : Nat) :
    (ofGlyphs p gs)[i]? = gs[i]?.map (ofGlyph (p.afterAll (gs.take i))) := by
  induction gs generalizing p i with
  | nil => rfl
  | cons g gs ih =>
      cases i with
      | zero => rfl
      | succ i => exact ih (p.after g) i

theorem reverse_behind (behind : List Glyph) :
    (Seen.behind behind).reverse = ofGlyphs .start behind.reverse := by
  induction behind with
  | nil => rfl
  | cons g behind ih =>
      rw [Seen.behind, List.reverse_cons, ih, List.reverse_cons, ofGlyphs_append]
      rfl

end Seen

theorem Glyph.boundary_eq {source : List Glyph} {k : Nat} (h : k ≤ source.length) :
    boundary source k = Position.start.afterAll (source.take k) := by
  rw [Position.afterAll_eq_boundary (List.take_append_drop k source).symm,
    List.length_take_of_le h]

namespace Seen

/-- Counting finds the same characters as going over the source. -/
theorem all_eq (source : List Glyph) : all source = ofGlyphs .start source := by
  apply List.ext_getElem?
  intro i
  rw [all, List.getElem?_mapIdx, getElem?_ofGlyphs]
  cases hi : source[i]? with
  | none => rfl
  | some g =>
      obtain ⟨hlt, hg⟩ := List.getElem?_eq_some_iff.mp hi
      have htake : source.take (i + 1) = source.take i ++ [g] := by
        rw [List.take_add_one, hi]
        rfl
      have hnext : Glyph.boundary source (i + 1) =
          (Position.start.afterAll (source.take i)).after g := by
        rw [Glyph.boundary_eq hlt, htake, Position.afterAll_append]
        rfl
      rw [Option.map_some, Option.map_some, Glyph.boundary_eq (Nat.le_of_lt hlt), hnext]
      rfl

section
variable {source : List Glyph} {k : Nat}

theorem all_split (h : k ≤ source.length) :
    all source = ofGlyphs .start (source.take k) ++
      ofGlyphs (Glyph.boundary source k) (source.drop k) := by
  rw [Glyph.boundary_eq h, ← ofGlyphs_append, List.take_append_drop, all_eq]

theorem take_all (h : k ≤ source.length) :
    (all source).take k = ofGlyphs .start (source.take k) := by
  rw [all_split h, List.take_left']
  rw [length_ofGlyphs, List.length_take_of_le h]

theorem drop_all (h : k ≤ source.length) :
    (all source).drop k = ofGlyphs (Glyph.boundary source k) (source.drop k) := by
  rw [all_split h, List.drop_left']
  rw [length_ofGlyphs, List.length_take_of_le h]

end

/-- The characters at the front of some are seen at the front of these. -/
theorem isPrefix_ofGlyphs_iff {p : Position} {gs : List Glyph} {seen : List Seen} :
    seen <+: ofGlyphs p gs ↔
      ∃ near, gs = near ++ gs.drop seen.length ∧ seen = ofGlyphs p near := by
  constructor
  · intro h
    refine ⟨gs.take seen.length, (List.take_append_drop _ _).symm, ?_⟩
    have hsplit := ofGlyphs_append p (gs.take seen.length) (gs.drop seen.length)
    rw [List.take_append_drop] at hsplit
    have hlength : (ofGlyphs p (gs.take seen.length)).length = seen.length := by
      rw [length_ofGlyphs, List.length_take, Nat.min_eq_left]
      rw [← length_ofGlyphs p gs]
      exact h.length_le
    have htake := List.prefix_iff_eq_take.mp h
    rwa [hsplit, List.take_left' hlength] at htake
  · rintro ⟨near, hgs, rfl⟩
    rw [hgs, ofGlyphs_append]
    exact List.prefix_append _ _

end Seen

/-! ## Buffers as cursors -/

/-- The buffer stands in front of character number `k` of the source. -/
structure Buffer.At (source : List Glyph) (k : Nat) (b : Buffer) : Prop where
  inside : k ≤ source.length
  position_eq : b.position = Glyph.boundary source k
  /-- What is remembered, in the order of the source, ends in front of the place. -/
  past : b.past.reverse <:+ (Seen.all source).take k
  bounded : b.past.length ≤ memory
  /-- What was taken back comes next, and then all that has never been read. -/
  ahead : b.ahead <+: (Seen.all source).drop k
  rest_eq : b.rest = source.drop (k + b.ahead.length)

namespace Buffer

section
variable {source : List Glyph} {b : Buffer} {k : Nat}

/-- Standing in front of character number `k` is standing behind the characters before it. -/
theorem at_iff_stands : b.At source k ↔
    k ≤ source.length ∧ b.Stands (source.take k).reverse (source.drop k) 0 := by
  have hspot : k ≤ source.length → spot (source.take k).reverse = Glyph.boundary source k := by
    intro h
    rw [spot, List.reverse_reverse, Glyph.boundary_eq h]
  have hpast : k ≤ source.length → (b.past.reverse <:+ (Seen.all source).take k ↔
      b.past <+: Seen.behind (source.take k).reverse) := by
    intro h
    rw [Seen.take_all h, ← List.reverse_reverse (source.take k), ← Seen.reverse_behind,
      List.reverse_reverse, List.reverse_suffix]
  constructor
  · intro h
    obtain ⟨near, hnear, hahead⟩ : ∃ near,
        source.drop k = near ++ (source.drop k).drop b.ahead.length ∧
        b.ahead = Seen.ofGlyphs (Glyph.boundary source k) near :=
      Seen.isPrefix_ofGlyphs_iff.mp (Seen.drop_all h.inside ▸ h.ahead)
    rw [List.drop_drop, ← h.rest_eq] at hnear
    rw [← hspot h.inside] at hahead
    exact ⟨h.inside, h.position_eq.trans (hspot h.inside).symm, (hpast h.inside).mp h.past,
      h.bounded, Nat.zero_le _, near, hnear, hahead⟩
  · rintro ⟨hinside, hb⟩
    obtain ⟨near, hnear, hahead⟩ := hb.ahead
    have hlength : b.ahead.length = near.length := by
      rw [hahead, Seen.length_ofGlyphs]
    have hrest : b.rest = source.drop (k + b.ahead.length) := by
      rw [← List.drop_drop, hnear, hlength, List.drop_left]
    refine ⟨hinside, hb.position_eq.trans (hspot hinside), (hpast hinside).mpr hb.past, hb.bounded,
      ?_, hrest⟩
    rw [Seen.drop_all hinside, Seen.isPrefix_ofGlyphs_iff, List.drop_drop, ← hrest, ← hspot hinside]
    exact ⟨near, hnear, hahead⟩

theorem at_of_stands {behind after : List Glyph} {n : Nat} (h : b.Stands behind after n) :
    b.At (behind.reverse ++ after) behind.length := by
  refine at_iff_stands.mpr ⟨?_, ?_⟩
  · rw [List.length_append, List.length_reverse]
    exact Nat.le_add_right _ _
  · rw [List.take_left' List.length_reverse, List.drop_left' List.length_reverse,
      List.reverse_reverse]
    exact h.mono (Nat.zero_le n)

/-- The number of the place is what the characters that are still to come leave of the source. -/
theorem At.add_remaining (h : b.At source k) : k + b.remaining = source.length := by
  have hb := (at_iff_stands.mp h).2
  rw [hb.remaining_eq, List.length_drop]
  exact Nat.add_sub_cancel' h.inside

end

end Buffer

/-! ## Moving -/

namespace Reads

section
variable {source : List Glyph} {b : Buffer} {k : Nat}

/-- Reading gives character number `k`, if there is one, and goes on behind it. -/
theorem read_at (h : b.At source k) :
    ∃ b', read b = some ((Seen.all source)[k]?, b') ∧ b'.At source (min (k + 1) source.length) := by
  have hb := (Buffer.at_iff_stands.mp h).2
  have hsource : source = (source.take k).reverse.reverse ++ source.drop k := by
    rw [List.reverse_reverse, List.take_append_drop]
  have hnumber : (Seen.all source)[k]? =
      (Seen.ofGlyphs (Glyph.boundary source k) (source.drop k))[0]? := by
    rw [← Seen.drop_all h.inside, List.getElem?_drop]
    rfl
  cases hdrop : source.drop k with
  | nil =>
      rw [hdrop] at hb hnumber
      obtain ⟨s, b', hread, rfl, hb'⟩ := meets_read_nil hb
      have hk : min (k + 1) source.length = k := by
        have hle : source.length ≤ k := List.drop_eq_nil_iff.mp hdrop
        have hinside := h.inside
        omega
      refine ⟨b', ?_, ?_⟩
      · rw [hread, hnumber]
        rfl
      · rw [hk]
        rw [← hdrop] at hb'
        exact Buffer.at_iff_stands.mpr ⟨h.inside, hb'⟩
  | cons g after =>
      rw [hdrop] at hb hnumber hsource
      obtain ⟨s, b', hread, rfl, hb'⟩ := meets_read hb (by decide)
      have hspot : spot (source.take k).reverse = Glyph.boundary source k :=
        hb.position_eq.symm.trans h.position_eq
      have hlt : k < source.length := by
        have hpos : 0 < (source.drop k).length := by
          rw [hdrop]
          exact Nat.succ_pos _
        rw [List.length_drop] at hpos
        omega
      refine ⟨b', ?_, ?_⟩
      · rw [hread, hnumber, hspot]
        rfl
      · have hat := Buffer.at_of_stands hb'
        rw [List.reverse_cons, List.append_assoc, List.singleton_append, ← hsource,
          List.length_cons, List.length_reverse, List.length_take_of_le h.inside] at hat
        rwa [Nat.min_eq_left hlt]

/-- Taking back goes back by one character. -/
theorem back_at (h : b.At source k) (hpast : b.past ≠ []) :
    0 < k ∧ ∃ b', back b = some ((), b') ∧ b'.At source (k - 1) := by
  have hb := (Buffer.at_iff_stands.mp h).2
  have hsource : source = (source.take k).reverse.reverse ++ source.drop k := by
    rw [List.reverse_reverse, List.take_append_drop]
  have hlength : (source.take k).reverse.length = k := by
    rw [List.length_reverse, List.length_take_of_le h.inside]
  cases hbehind : (source.take k).reverse with
  | nil =>
      rw [hbehind] at hb
      exact absurd (List.prefix_nil.mp hb.past) hpast
  | cons g behind =>
      rw [hbehind] at hb hsource hlength
      have hone : b.Stands (g :: behind) (source.drop k) (0 + 1) :=
        { hb with remembers := List.length_pos_iff.mpr hpast }
      obtain ⟨u, b', hback, hb'⟩ := meets_back hone
      have hat := Buffer.at_of_stands hb'
      rw [List.append_cons, ← List.reverse_cons, ← hsource] at hat
      rw [List.length_cons] at hlength
      subst hlength
      exact ⟨Nat.succ_pos _, b', hback, hat⟩

/-- Looking gives character number `k`, if there is one, and stays. -/
theorem peek_at (h : b.At source k) :
    ∃ b', peek b = some ((Seen.all source)[k]?.map Seen.char, b') ∧ b'.At source k := by
  have hb := (Buffer.at_iff_stands.mp h).2
  obtain ⟨c, b', hpeek, rfl, hb'⟩ := meets_peek hb (by decide)
  refine ⟨b', ?_, Buffer.at_iff_stands.mpr ⟨h.inside, hb'⟩⟩
  rw [hpeek, Seen.all, List.getElem?_mapIdx, List.head?_drop, Option.map_map]
  rfl

end

end Reads

end Source

/-! ## The buffer of a lexer -/

namespace Lexer

open Source (Buffer Glyph Reads Seen)

theorem StandsIn.exists_at {source : List Glyph} {l : Lexer} (h : l.StandsIn source) :
    ∃ k, l.buffer.At source k := by
  obtain ⟨behind, after, rfl, hb⟩ := h
  exact ⟨behind.length, Buffer.at_of_stands hb⟩

/-- No character is taken back that has been forgotten. -/
theorem StandsIn.read_ne_none {source : List Glyph} {l : Lexer} (h : l.StandsIn source) :
    Token.read l.ending l.buffer ≠ none := by
  obtain ⟨behind, after, -, hb⟩ := h
  obtain ⟨answer, b', hread, -⟩ := Token.meets_read l.ending hb
  rw [hread]
  exact Option.some_ne_none _

/-- **The buffer is a cursor.**  However a lexer over a byte sequence has been asked before, its
buffer stands in front of exactly one character of the source or at its end, and reading on never
takes back a character that has been forgotten.  From any buffer that stands in front of character
number `k`, reading gives this character and goes on to the next one, taking back what is remembered
goes back by one, and looking gives this character and stays. -/
theorem buffer_is_cursor (bytes : List UInt8) (ending : Ending) (requests : List Request) :
    (∃ k, (asked bytes ending requests).buffer.At (Glyph.ofBytes bytes) k ∧
      ∀ k', (asked bytes ending requests).buffer.At (Glyph.ofBytes bytes) k' → k' = k) ∧
    Token.read (asked bytes ending requests).ending (asked bytes ending requests).buffer ≠ none ∧
    ∀ (b : Buffer) (k : Nat), b.At (Glyph.ofBytes bytes) k →
      (∃ b', Reads.read b = some ((Seen.all (Glyph.ofBytes bytes))[k]?, b') ∧
        b'.At (Glyph.ofBytes bytes) (min (k + 1) (Glyph.ofBytes bytes).length)) ∧
      (b.past ≠ [] → 0 < k ∧
        ∃ b', Reads.back b = some ((), b') ∧ b'.At (Glyph.ofBytes bytes) (k - 1)) ∧
      ∃ b', Reads.peek b = some ((Seen.all (Glyph.ofBytes bytes))[k]?.map Seen.char, b') ∧
        b'.At (Glyph.ofBytes bytes) k := by
  have hstands := (standsIn_start (Glyph.ofBytes bytes) ending).askAll requests
  obtain ⟨k, hk⟩ := hstands.exists_at
  refine ⟨⟨k, hk, ?_⟩, hstands.read_ne_none, ?_⟩
  · intro k' hk'
    have hremaining := hk'.add_remaining.trans hk.add_remaining.symm
    exact Nat.add_right_cancel hremaining
  · intro b k h
    exact ⟨Reads.read_at h, Reads.back_at h, Reads.peek_at h⟩

/-- `12.x`: that the point belongs to no number shows only at the `x`, so two characters are taken
back. -/
def pointed : List UInt8 := [49, 50, 46, 120]

theorem buffer_is_cursor_pointed :
    ∃ b, (asked pointed (.failed "gone") [.lex]).buffer = b ∧ b.past.map Seen.char = ['2', '1'] ∧
      b.ahead.map Seen.char = ['.', 'x'] ∧ b.At (Glyph.ofBytes pointed) 2 ∧
      (∃ b', Reads.back b = some ((), b') ∧ b'.At (Glyph.ofBytes pointed) 1) ∧
      ∃ b', Reads.peek b = some (some '.', b') ∧ b'.At (Glyph.ofBytes pointed) 2 := by
  obtain ⟨⟨k, hk, -⟩, -, hmoves⟩ := buffer_is_cursor pointed (.failed "gone") [.lex]
  obtain rfl : k = 2 := by
    have hremaining : (asked pointed (.failed "gone") [.lex]).buffer.remaining = 2 := by
      decide +kernel
    have hlength : (Glyph.ofBytes pointed).length = 4 := by decide +kernel
    have hsum := hk.add_remaining
    omega
  obtain ⟨-, hback, hpeek⟩ := hmoves _ _ hk
  exact ⟨_, rfl, by decide +kernel, by decide +kernel, hk, (hback (by decide +kernel)).2, hpeek⟩

end Lexer

end HamScript
