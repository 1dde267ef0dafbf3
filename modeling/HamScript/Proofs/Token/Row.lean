/-
# Tokens in a row

The tokens of a source, and the end after them, stand one behind the other: each begins at a higher
offset than the one before it ends (`Rising`).  So the positions of a source can be told by the
tokens: `Token.place row p` counts the tokens that begin at `p` or before, and all positions of the
token with number `i` are sent to one place (`Rising.place_eq`).

Rows of two sources are the same but for layout (`SameRow`) if their tokens have the same kinds and
texts, one by one, and break lines between the same tokens.
-/
import HamScript.Proofs.Syntax.Relocate
import HamScript.Proofs.Token.Scanning

namespace HamScript

open Lexeme (IsLexeme)
open Source (Glyph Position Span)

/-- The tokens of a source with the end after them, or what is wrong with it. -/
def Scan.row (s : Scan) : Except ScanFault (List Token) :=
  s.stop.map fun p => s.tokens ++ [.endAt p]

theorem Scan.exists_of_row {s : Scan} {row : List Token} (h : s.row = .ok row) :
    ∃ p, s = ⟨s.tokens, .ok p⟩ ∧ row = s.tokens ++ [.endAt p] := by
  obtain ⟨ts, stop⟩ := s
  cases stop with
  | error e => exact nomatch h
  | ok p => exact ⟨p, rfl, (Except.ok.inj h).symm⟩

/-- The tokens of a scan, with the end after them if it has come to it. -/
def Scan.listed (s : Scan) : List Token :=
  s.tokens ++ match s.stop with
    | .ok p => [.endAt p]
    | .error _ => []

theorem Scan.listed_of_row {s : Scan} {row : List Token} (h : s.row = .ok row) :
    s.listed = row := by
  obtain ⟨p, hs, rfl⟩ := exists_of_row h
  rw [hs]
  rfl

namespace Token

/-! ## One behind the other -/

/-- From the offset `n` on, each token begins behind the end of the one before. -/
inductive Rising : Int → List Token → Prop
  | nil (n : Int) : Rising n []
  | cons {n : Int} {t : Token} {ts : List Token} :
      n ≤ t.span.first.offset → t.span.first.offset ≤ t.span.last.offset →
      Rising (t.span.last.offset + 1) ts → Rising n (t :: ts)

section
variable {n m : Int} {t : Token} {ts before after : List Token} {p : Position}

theorem Rising.of_le (h : Rising m ts) (hle : n ≤ m) : Rising n ts := by
  cases h with
  | nil => exact .nil n
  | cons hfirst hlast hrest => exact .cons (Int.le_trans hle hfirst) hlast hrest

theorem Rising.le_first (h : Rising n ts) (ht : t ∈ ts) : n ≤ t.span.first.offset := by
  induction h with
  | nil => exact absurd ht List.not_mem_nil
  | cons hfirst hlast _ ih =>
      rcases List.mem_cons.mp ht with rfl | ht
      · exact hfirst
      · have hle := ih ht
        omega

theorem Rising.of_append {us : List Token} (h : Rising n (ts ++ us)) :
    Rising n ts ∧ ∃ m, Rising m us := by
  induction ts generalizing n with
  | nil => exact ⟨.nil n, n, h⟩
  | cons t ts ih =>
      cases h with
      | cons hfirst hlast hrest =>
          obtain ⟨hts, hus⟩ := ih hrest
          exact ⟨.cons hfirst hlast hts, hus⟩

theorem Rising.lt_of_append {u : Token} {us : List Token} (h : Rising n (ts ++ us)) (ht : t ∈ ts)
    (hu : u ∈ us) : t.span.last.offset < u.span.first.offset := by
  induction ts generalizing n with
  | nil => exact absurd ht List.not_mem_nil
  | cons t' ts ih =>
      cases h with
      | cons _ _ hrest =>
          rcases List.mem_cons.mp ht with rfl | ht
          · exact hrest.le_first (List.mem_append_right ts hu)
          · exact ih hrest ht

/-! ## Places -/

/-- The token begins at the position or before. -/
def beginsBy (p : Position) (t : Token) : Bool :=
  decide (t.span.first.offset ≤ p.offset)

/-- How many tokens begin at the position or before, as a position. -/
def place (row : List Token) (p : Position) : Position :=
  ⟨row.countP (beginsBy p), 0, 0⟩

theorem Rising.countP_eq_zero (h : Rising n ts) (hp : p.offset < n) :
    ts.countP (beginsBy p) = 0 := by
  refine List.countP_eq_zero.mpr fun t ht => ?_
  have hle := h.le_first ht
  rw [beginsBy, decide_eq_true_eq]
  omega

/-- The positions of a token are told by how many tokens stand before it. -/
theorem Rising.place_eq (h : Rising n (before ++ t :: after))
    (hfirst : t.span.first.offset ≤ p.offset) (hlast : p.offset ≤ t.span.last.offset) :
    place (before ++ t :: after) p = ⟨before.length + 1, 0, 0⟩ := by
  have hcount : (before ++ t :: after).countP (beginsBy p) = before.length + 1 := by
    induction before generalizing n with
    | nil =>
        have hbegins : beginsBy p t = true := decide_eq_true hfirst
        cases h with
        | cons _ _ hrest =>
            rw [List.nil_append, List.countP_cons_of_pos hbegins,
              hrest.countP_eq_zero (Int.lt_add_one_of_le hlast), List.length_nil]
    | cons u before ih =>
        cases h with
        | cons _ hu hrest =>
            have hle : u.span.last.offset + 1 ≤ t.span.first.offset :=
              hrest.le_first (List.mem_append_right before List.mem_cons_self)
            have hbegins : beginsBy p u = true := decide_eq_true (by omega)
            rw [List.cons_append, List.countP_cons_of_pos hbegins, ih hrest, List.length_cons]
  rw [place, hcount]
  rfl

theorem Rising.first_le_last (h : Rising n ts) (ht : t ∈ ts) :
    t.span.first.offset ≤ t.span.last.offset := by
  induction h with
  | nil => exact absurd ht List.not_mem_nil
  | cons _ hlast _ ih =>
      rcases List.mem_cons.mp ht with rfl | ht
      · exact hlast
      · exact ih ht

theorem Rising.relocate_span (h : Rising n (before ++ t :: after)) :
    t.span.relocate (place (before ++ t :: after)) = .single ⟨before.length + 1, 0, 0⟩ := by
  have hle := h.first_le_last (List.mem_append_right before List.mem_cons_self)
  rw [Span.relocate, h.place_eq (Int.le_refl _) hle, h.place_eq hle (Int.le_refl _)]
  rfl

end

/-! ## Rows that agree -/

/-- For each token but the first, whether it begins on the line where the one before it ends. -/
def sameLines : List Token → List Bool
  | t :: u :: ts => decide (u.span.first.line = t.span.last.line) :: sameLines (u :: ts)
  | _ => []

/-- The same kinds and texts, with line breaks at the same places. -/
structure SameRow (us vs : List Token) : Prop where
  words_eq : us.map (fun t => (t.kind, t.text)) = vs.map fun t => (t.kind, t.text)
  sameLines_eq : sameLines us = sameLines vs

theorem SameRow.of_cons {t t' u : Token} {us vs : List Token}
    (h : SameRow (t :: u :: us) (t' :: vs)) :
    ∃ u' vs', vs = u' :: vs' ∧
      (u.span.first.line = t.span.last.line ↔ u'.span.first.line = t'.span.last.line) ∧
      SameRow (u :: us) (u' :: vs') := by
  obtain ⟨hwords, hlines⟩ := h
  cases vs with
  | nil => simp at hwords
  | cons u' vs' =>
      obtain ⟨-, hwords⟩ := List.cons.inj hwords
      obtain ⟨hline, hlines⟩ := List.cons.inj hlines
      exact ⟨u', vs', rfl, decide_eq_decide.mp hline, hwords, hlines⟩

theorem SameRow.head {t t' : Token} {us vs : List Token} (h : SameRow (t :: us) (t' :: vs)) :
    t.kind = t'.kind ∧ t.text = t'.text := by
  obtain ⟨hhead, -⟩ := List.cons.inj h.words_eq
  exact Prod.mk.inj hhead

theorem SameRow.length_eq {us vs : List Token} (h : SameRow us vs) : us.length = vs.length := by
  rw [← List.length_map, h.words_eq, List.length_map]

end Token

/-- A lexeme ends before the character after it begins. -/
theorem Source.Position.offset_dropLast_lt (p : Position) {taken : List Glyph} (hne : taken ≠ [])
    (hsize : ∀ g ∈ taken, 0 < g.size) :
    (p.afterAll taken.dropLast).offset < (p.afterAll taken).offset := by
  have hlast := hsize _ (List.getLast_mem hne)
  have hsplit := congrArg p.afterAll (List.dropLast_concat_getLast hne)
  rw [← hsplit, afterAll_append, afterAll_cons, afterAll_nil, offset_after]
  omega

/-- The tokens of a source and the end after them stand one behind the other. -/
theorem Lexes.rising {ending : Ending} {p : Position} {gs : List Glyph} {ts : List Token}
    {stop : Except ScanFault Position} (h : Lexes ending p gs ts stop)
    (hsize : ∀ g ∈ gs, 0 < g.size) : Token.Rising p.offset (Scan.listed ⟨ts, stop⟩) := by
  have hbehind : ∀ (p : Position) (gs : List Glyph), p.offset ≤ (p.afterAll gs).offset := by
    intro p gs
    rw [Position.offset_afterAll]
    omega
  induction h with
  | @done p gap hgap =>
      cases ending with
      | finished => exact .cons (hbehind p gap) (Int.le_refl _) (.nil _)
      | failed reason => exact .nil _
  | @token p gap taken rest kind text ts stop hgap hlexeme _ ih =>
      have htaken : ∀ g ∈ taken, 0 < g.size := fun g hg =>
        hsize g (List.mem_append_right gap (List.mem_append_left rest hg))
      have hrest := ih fun g hg =>
        hsize g (List.mem_append_right gap (List.mem_append_right taken hg))
      rw [Position.afterAll_append] at hrest
      have hlt := (p.afterAll gap).offset_dropLast_lt hlexeme.taken_ne_nil htaken
      exact .cons (hbehind p gap) (hbehind _ _) (hrest.of_le hlt)
  | stray | unclosed => exact .nil _

theorem Scan.rising_listed (bytes : List UInt8) (ending : Ending) :
    Token.Rising 0 (Scan.ofGlyphs (Glyph.ofBytes bytes) ending).listed :=
  (Scan.lexes _ ending).rising fun _ hg => Glyph.size_pos_of_mem_ofBytes hg

theorem Scan.rising_of_row {bytes : List UInt8} {row : List Token}
    (h : (Scan.ofGlyphs (Glyph.ofBytes bytes) .finished).row = .ok row) : Token.Rising 0 row := by
  have hrising := Scan.rising_listed bytes .finished
  rwa [Scan.listed_of_row h] at hrising

end HamScript
