/-
# Positions are coordinates

A position is found by going over the characters one by one.  What it says can also be counted:
how many bytes stand before it, how many line feeds are among them, and how many characters there
are since the last line feed.
-/
import HamScript.Proofs.Source.Cursor
import HamScript.Proofs.Token.Lines

namespace HamScript.Source

/-- How many of the characters there are since the last line feed. -/
def Glyph.sinceFeed (gs : List Glyph) : Nat :=
  (gs.reverse.takeWhile fun g => g.char != '\n').length

namespace Position

theorem column_after (p : Position) (g : Glyph) :
    (p.after g).column = if g.char = '\n' then 1 else p.column + 1 := by
  rw [after]
  split <;> rfl

theorem column_spot (behind : List Glyph) :
    (spot behind).column = 1 + (behind.takeWhile fun g => g.char != '\n').length := by
  induction behind with
  | nil => rfl
  | cons g behind ih =>
      rw [spot_cons, column_after, ih, List.takeWhile_cons]
      by_cases hfeed : g.char = '\n'
      · simp [hfeed]
      · simp only [hfeed, if_false, bne_iff_ne, ne_eq, not_false_eq_true, if_true, List.length_cons]
        omega

/-- Columns count characters since the last line feed. -/
theorem column_afterAll (gs : List Glyph) :
    (start.afterAll gs).column = 1 + Glyph.sinceFeed gs := by
  have hcolumn := column_spot gs.reverse
  rwa [spot, List.reverse_reverse] at hcolumn

/-- The position is the coordinate of a boundary between characters of the bytes: its offset counts
the bytes before it, its line the line feeds among these, and its column the characters since the
last line feed. -/
def IsCoordinate (bytes : List UInt8) (p : Position) : Prop :=
  ∃ before after, Glyph.ofBytes bytes = before ++ after ∧
    p.offset = Glyph.byteCount before ∧
    p.line = 1 + (bytes.take (Glyph.byteCount before)).count 10 ∧
    p.column = 1 + Glyph.sinceFeed before

section
variable {bytes : List UInt8} {before after : List Glyph} {p : Position}

/-- The line feeds among the first characters are those among their bytes. -/
theorem countFeeds_eq_count (h : Glyph.ofBytes bytes = before ++ after) :
    Glyph.countFeeds before = (bytes.take (Glyph.byteCount before)).count 10 := by
  have hall : Glyph.countFeeds before + Glyph.countFeeds after = bytes.count 10 := by
    rw [← Glyph.countFeeds_append, ← h, Glyph.countFeeds_ofBytes]
  have hafter : Glyph.countFeeds after = (bytes.drop (Glyph.byteCount before)).count 10 := by
    rw [← Glyph.countFeeds_ofBytes, Glyph.ofBytes_drop_byteCount h]
  have hsplit : bytes.count 10 = (bytes.take (Glyph.byteCount before)).count 10 +
      (bytes.drop (Glyph.byteCount before)).count 10 := by
    rw [← List.count_append, List.take_append_drop]
  omega

theorem isCoordinate_afterAll (h : Glyph.ofBytes bytes = before ++ after) :
    (start.afterAll before).IsCoordinate bytes := by
  refine ⟨before, after, h, ?_, ?_, column_afterAll before⟩
  · rw [offset_afterAll]
    exact Int.zero_add _
  · rw [line_afterAll, countFeeds_eq_count h]
    rfl

theorem IsCoordinate.bounds (h : p.IsCoordinate bytes) :
    0 ≤ p.offset ∧ p.offset ≤ bytes.length := by
  obtain ⟨before, after, hbytes, hoffset, -, -⟩ := h
  have hle : Glyph.byteCount before ≤ bytes.length := by
    rw [← Glyph.byteCount_ofBytes, hbytes, Glyph.byteCount_append]
    exact Nat.le_add_right _ _
  rw [hoffset]
  omega

end

end Position

end HamScript.Source
