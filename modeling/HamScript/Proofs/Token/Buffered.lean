/-
# Reading through a buffer finds the lexemes

Tokens are read in two ways: off the list of all characters, with `Lexeme.cut` and `Token.step`, and
character by character through a buffer, with `Token.read`.  The second way knows that a token has
ended only when it has read too far, and then takes characters back.

Proved here: from a buffer that stands at a place, `Token.read` gives what `Token.step` gives from
the characters after this place, and leaves a buffer that stands where the step ends (`meets_read`).
So it never takes back more than is remembered.
-/
import HamScript.Proofs.Source.Cursor
import HamScript.Token.Buffered

namespace HamScript

open Lexeme (Cut)
open Source (Buffer Glyph Position Seen Span spot spot_cons)
open Source.Reads (Meets meets_back meets_bounded meets_get meets_peek meets_pure meets_read
  meets_read_nil meets_takeWhile)

namespace Lexeme.Cut

/-- What the cut says of the token that begins at `p`. -/
def answer (p : Position) : Cut → Except ScanFault Token
  | lexeme kind text taken _ => .ok ⟨kind, text, .ofGlyphs p taken⟩
  | unknown g _ => .error (.unrecognized g.char (.single p))
  | unterminated taken => .error (.unterminated ⟨p, p.afterAll taken⟩)

/-- The characters that are cut off. -/
def taken : Cut → List Glyph
  | lexeme _ _ taken _ => taken
  | unknown g _ => [g]
  | unterminated taken => taken

/-- The characters that are left. -/
def rest : Cut → List Glyph
  | lexeme _ _ _ rest => rest
  | unknown _ rest => rest
  | unterminated _ => []

theorem taken_append_rest {g : Glyph} {gs : List Glyph} (h : Solid (g :: gs)) :
    (cut g gs).taken ++ (cut g gs).rest = g :: gs := by
  rcases h.cases with ⟨kind, text, taken, rest, hsource, hlexeme⟩ | hstray | ⟨hq, hunclosed⟩
  · rw [hlexeme.cut_eq hsource]
    exact hsource
  · rw [hstray.cut_eq]
    rfl
  · rw [cut_unclosed hq hunclosed]
    exact List.append_nil _

end Lexeme.Cut

namespace Token

/-- The answer is that of the cut, and the buffer stands behind what is cut off. -/
structure Cuts (c : Cut) (behind : List Glyph) (answer : Except ScanFault Token) (b : Buffer) :
    Prop where
  answer_eq : answer = c.answer (spot behind)
  stands : b.Stands (c.taken.reverse ++ behind) c.rest 0

section
variable {b : Buffer} {behind after taken rest : List Glyph} {g : Glyph} {n : Nat}

/-- The text of characters that have been read one after the other. -/
theorem seenText_cons (behind : List Glyph) (g : Glyph) (taken : List Glyph) :
    seenText (.ofGlyph (spot behind) g :: Seen.ofGlyphs (spot (g :: behind)) taken) =
      Glyph.text (g :: taken) := by
  rw [spot_cons]
  exact congrArg String.ofList (Seen.map_char_ofGlyphs (spot behind) (g :: taken))

/-- A lexeme that stands for its own characters, of which the first has been read before. -/
theorem cuts_plain (kind : Kind) (hb : b.Stands (taken.reverse ++ g :: behind) rest n) :
    Cuts (.plain kind (g :: taken) rest) behind
      (.ok (ofSeen kind (.ofGlyph (spot behind) g) (Seen.ofGlyphs (spot (g :: behind)) taken)))
      b where
  answer_eq := by
    have hlast := Seen.start_getLastD_ofGlyphs (spot behind) taken g (.ofGlyph (spot behind) g)
    rw [ofSeen, seenText_cons, spot_cons]
    exact congrArg (fun last => Except.ok (Token.mk kind _ ⟨spot behind, last⟩)) hlast
  stands := by
    have hstands : b.Stands ((g :: taken).reverse ++ behind) rest 0 := by
      simpa using hb.mono (Nat.zero_le n)
    exact hstands

/-! ## Names and numbers -/

theorem meets_readName (h : b.Stands (g :: behind) after 1)
    (hg : Lexeme.isNameStart g.char = true) :
    Meets (readName (.ofGlyph (spot behind) g)) b fun t =>
      Cuts (Lexeme.cutName (g :: after)) behind (.ok t) := by
  refine (meets_bounded (meets_takeWhile Lexeme.isNamePart (h.mono (Nat.zero_le 1))
    (Nat.le_of_eq h.remaining_eq.symm))).bind ?_
  rintro seen b' ⟨rfl, hb'⟩
  have hcut : Lexeme.cutName (g :: after) = .plain
      ((Kind.ofWord? (Glyph.text (g :: after.takeWhile fun g => Lexeme.isNamePart g.char))).getD
        .ident)
      (g :: after.takeWhile fun g => Lexeme.isNamePart g.char)
      (after.dropWhile fun g => Lexeme.isNamePart g.char) := by
    simp [Lexeme.cutName, Lexeme.isNamePart_of_isNameStart hg]
  rw [hcut, ← seenText_cons behind]
  exact meets_pure (cuts_plain _ hb')

/-- A number that has had a point goes on with digits. -/
theorem readDigits_true (bound : Nat) :
    readDigits true bound = do
      let more ← Source.Reads.takeWhile Text.isDecimalDigit bound
      return (true, more) := by
  induction bound with
  | zero => rfl
  | succ bound ih =>
      simp only [readDigits, Source.Reads.takeWhile, ih, bind_assoc]
      congr 1
      funext s
      cases s with
      | none => rfl
      | some s =>
          by_cases hs : Text.isDecimalDigit s.char = true
          · simp [hs]
          · simp [hs]

theorem any_head?_eq (gs : List Glyph) :
    (gs.head?.map Glyph.char).any Text.isDecimalDigit = Lexeme.startsWithDigit gs := by
  cases gs <;> rfl

/-- A digit more in front of a number. -/
theorem cutNumber_cons {g' : Glyph} {gs : List Glyph} {kind : Kind}
    (hg : Text.isDecimalDigit g.char = true) (hg' : Text.isDecimalDigit g'.char = true)
    (h : Lexeme.cutNumber (g' :: gs) = .plain kind taken rest) :
    Lexeme.cutNumber (g :: g' :: gs) = .plain kind (g :: taken) rest := by
  simp only [Lexeme.cutNumber, List.takeWhile_cons, List.dropWhile_cons, hg, hg', if_true] at h ⊢
  split at h
  · split at h
    next hpoint =>
      obtain ⟨rfl, -, rfl, rfl⟩ := Cut.lexeme.inj h
      rw [if_pos hpoint]
      rfl
    next hpoint =>
      obtain ⟨rfl, -, rfl, rfl⟩ := Cut.lexeme.inj h
      rw [if_neg hpoint]
  · obtain ⟨rfl, -, rfl, rfl⟩ := Cut.lexeme.inj h
    rfl

/-- A number that has had no point goes on with digits, and with a point if a digit follows. -/
theorem meets_readDigits_false {bound : Nat} (h : b.Stands behind after 0)
    (hbound : after.length ≤ bound) :
    Meets (readDigits false bound) b fun r b' => ∃ pointed taken rest,
      r = (pointed, Seen.ofGlyphs (spot behind) taken) ∧
      b'.Stands (taken.reverse ++ behind) rest 0 ∧
      ∀ g : Glyph, Text.isDecimalDigit g.char = true →
        Lexeme.cutNumber (g :: after) =
          .plain (if pointed then .float else .int) (g :: taken) rest := by
  induction bound generalizing b behind after with
  | zero =>
      obtain rfl := List.length_eq_zero_iff.mp (Nat.le_zero.mp hbound)
      refine meets_pure ⟨false, [], [], rfl, h, ?_⟩
      intro g hg
      simp [Lexeme.cutNumber, hg]
  | succ bound ih =>
      cases after with
      | nil =>
          refine (meets_read_nil h).bind ?_
          rintro s b' ⟨rfl, hb'⟩
          refine meets_pure ⟨false, [], [], rfl, hb', ?_⟩
          intro g hg
          simp [Lexeme.cutNumber, hg]
      | cons g' after =>
          have hbound := Nat.le_of_succ_le_succ hbound
          refine (meets_read h (by decide)).bind ?_
          rintro s b' ⟨rfl, hb'⟩
          dsimp only [Seen.ofGlyph]
          by_cases hg' : Text.isDecimalDigit g'.char = true
          · rw [if_pos hg']
            refine (ih (hb'.mono (Nat.zero_le 1)) hbound).bind ?_
            rintro r b'' ⟨pointed, taken, rest, rfl, hb'', hcut⟩
            refine meets_pure ⟨pointed, g' :: taken, rest, ?_, by simpa using hb'', ?_⟩
            · rw [spot_cons]
              rfl
            · intro g hg
              exact cutNumber_cons hg hg' (hcut g' hg')
          · rw [if_neg hg']
            -- where the number ends here
            have hstop : (g'.char = '.' → Lexeme.startsWithDigit after = false) →
                ∀ g : Glyph, Text.isDecimalDigit g.char = true →
                  Lexeme.cutNumber (g :: g' :: after) = .plain .int [g] (g' :: after) := by
              intro hpoint g hg
              by_cases hdot : g'.char = '.'
              · simp [Lexeme.cutNumber, hg, hg', hpoint hdot]
              · simp [Lexeme.cutNumber, hg, hg', hdot]
            by_cases hdot : g'.char = '.'
            · rw [if_pos ⟨hdot, rfl⟩]
              refine (meets_peek hb' (by decide)).bind ?_
              rintro c b'' ⟨rfl, hb''⟩
              rw [any_head?_eq]
              by_cases hdigit : Lexeme.startsWithDigit after = true
              · rw [if_pos hdigit, readDigits_true, bind_assoc]
                refine (meets_takeWhile _ (hb''.mono (Nat.zero_le 1)) hbound).bind ?_
                rintro seen b₃ ⟨rfl, hb₃⟩
                refine meets_pure ⟨true, g' :: after.takeWhile _, after.dropWhile _, ?_,
                  by simpa using hb₃, ?_⟩
                · rw [spot_cons]
                  rfl
                · intro g hg
                  have hpoint : (g'.char == '.' && Lexeme.startsWithDigit after) = true := by
                    simp [hdot, hdigit]
                  simp [Lexeme.cutNumber, hg, hg', -Bool.and_eq_true, hpoint]
              · rw [if_neg hdigit]
                refine (meets_back hb'').bind ?_
                intro _ b₃ hb₃
                refine meets_pure ⟨false, [], _, rfl, hb₃, ?_⟩
                exact hstop fun _ => by simpa using hdigit
            · rw [if_neg fun hpoint => hdot hpoint.1]
              refine (meets_back hb').bind ?_
              intro _ b'' hb''
              refine meets_pure ⟨false, [], _, rfl, hb'', ?_⟩
              exact hstop fun hpoint => absurd hpoint hdot

theorem meets_readNumber (h : b.Stands (g :: behind) after 1)
    (hg : Text.isDecimalDigit g.char = true) :
    Meets (readNumber (.ofGlyph (spot behind) g)) b fun t =>
      Cuts (Lexeme.cutNumber (g :: after)) behind (.ok t) := by
  refine (meets_bounded (meets_readDigits_false (h.mono (Nat.zero_le 1))
    (Nat.le_of_eq h.remaining_eq.symm))).bind ?_
  rintro r b' ⟨pointed, taken, rest, rfl, hb', hcut⟩
  rw [hcut g hg]
  exact meets_pure (cuts_plain _ hb')

/-! ## Strings -/

/-- What reading the rest of a string finds, and where it leaves the buffer. -/
inductive BodyRead (behind after : List Glyph) : Option (List Char × Position) → Buffer → Prop
  | closed {body : Lexeme.StringBody} {b : Buffer} :
      Lexeme.stringBody? after = some body → body.taken ≠ [] →
      b.Stands (body.taken.reverse ++ behind) body.rest 0 →
      BodyRead behind after (some (body.value, (spot behind).afterAll body.taken.dropLast)) b
  | unclosed {b : Buffer} :
      Lexeme.stringBody? after = none → b.Stands (after.reverse ++ behind) [] 0 →
      BodyRead behind after none b

/-- Characters that stand for themselves or for something else go in front of the rest. -/
theorem BodyRead.push {read : Option (List Char × Position)} {value : List Char}
    (h : BodyRead (taken.reverse ++ behind) after read b)
    (hbody : Lexeme.stringBody? (taken ++ after) =
      (Lexeme.stringBody? after).map (.push value taken)) :
    BodyRead behind (taken ++ after) (read.map fun r => (value ++ r.1, r.2)) b := by
  cases h with
  | @closed body _ hafter hne hb =>
      rw [hafter] at hbody
      have hstop : (spot (taken.reverse ++ behind)).afterAll body.taken.dropLast =
          (spot behind).afterAll (body.push value taken).taken.dropLast := by
        rw [Lexeme.StringBody.push, List.dropLast_append_of_ne_nil hne, Position.afterAll_append,
          Source.spot_reverse_append]
      rw [hstop]
      refine .closed hbody ?_ ?_
      · exact List.append_ne_nil_of_right_ne_nil taken hne
      · simpa [Lexeme.StringBody.push] using hb
  | unclosed hafter hb =>
      rw [hafter] at hbody
      exact .unclosed hbody (by simpa using hb)

theorem meets_readBody {bound : Nat} (h : b.Stands behind after 0)
    (hbound : after.length ≤ bound) : Meets (readBody bound) b (BodyRead behind after) := by
  induction bound generalizing b behind after with
  | zero =>
      obtain rfl := List.length_eq_zero_iff.mp (Nat.le_zero.mp hbound)
      exact meets_pure (.unclosed rfl h)
  | succ bound ih =>
      cases after with
      | nil =>
          refine (meets_read_nil h).bind ?_
          rintro s b' ⟨rfl, hb'⟩
          exact meets_pure (.unclosed rfl hb')
      | cons g after =>
          have hbound := Nat.le_of_succ_le_succ hbound
          refine (meets_read h (by decide)).bind ?_
          rintro s b' ⟨rfl, hb'⟩
          dsimp only [Seen.ofGlyph]
          by_cases hquote : g.char = '"'
          · rw [if_pos hquote]
            exact meets_pure (.closed (Lexeme.stringBody?_quote hquote after)
              (List.cons_ne_nil g []) (hb'.mono (Nat.zero_le 1)))
          rw [if_neg hquote]
          by_cases hslash : g.char = '\\'
          · rw [if_pos hslash]
            cases after with
            | nil =>
                refine (meets_read_nil hb').bind ?_
                rintro e b'' ⟨rfl, hb''⟩
                refine meets_pure (.unclosed ?_ (hb''.mono (Nat.zero_le 1)))
                simp [Lexeme.stringBody?, hslash]
            | cons e after =>
                refine (meets_read hb' (by decide)).bind ?_
                rintro e' b'' ⟨rfl, hb''⟩
                refine (ih (hb''.mono (Nat.zero_le 2)) (Nat.le_of_succ_le hbound)).bind ?_
                intro read b₃ hread
                have hpush : BodyRead behind ([g, e] ++ after) _ b₃ :=
                  hread.push (Lexeme.stringBody?_pair hslash e after)
                exact meets_pure hpush
          · rw [if_neg hslash]
            refine (ih (hb'.mono (Nat.zero_le 1)) hbound).bind ?_
            intro read b'' hread
            have hpush : BodyRead behind ([g] ++ after) _ b'' :=
              hread.push (Lexeme.stringBody?_plain hquote hslash after)
            exact meets_pure hpush

theorem meets_readString (h : b.Stands (g :: behind) after 1) :
    Meets (readString (.ofGlyph (spot behind) g)) b (Cuts (Lexeme.cutString g after) behind) := by
  refine (meets_bounded (meets_readBody (h.mono (Nat.zero_le 1))
    (Nat.le_of_eq h.remaining_eq.symm))).bind ?_
  intro read b' hread
  rw [Lexeme.cutString]
  cases hread with
  | @closed body _ hbody hne hb' =>
      rw [hbody]
      refine meets_pure ⟨?_, by simpa [Cut.taken, Cut.rest] using hb'⟩
      simp [Cut.answer, Span.ofGlyphs, List.dropLast_cons_of_ne_nil hne, Seen.ofGlyph]
  | unclosed hbody hb' =>
      rw [hbody]
      refine (meets_get (Q := fun here b'' => here = b' ∧ b'' = b') ⟨rfl, rfl⟩).bind ?_
      rintro here b'' ⟨rfl, rfl⟩
      refine meets_pure ⟨?_, by simpa [Cut.taken, Cut.rest] using hb'⟩
      simp [Cut.answer, hb'.position_eq, Seen.ofGlyph]

/-! ## Marks -/

theorem cuts_unknown (h : b.Stands (g :: behind) after n) :
    Cuts (.unknown g after) behind (unrecognized (.ofGlyph (spot behind) g)) b where
  answer_eq := rfl
  stands := h.mono (Nat.zero_le n)

theorem meets_readPair {alone : Except ScanFault Token} {c : Cut} (double : Kind)
    (h : b.Stands (g :: behind) after 1)
    (hc : ∀ b', b'.Stands (g :: behind) after 1 → Cuts c behind alone b') :
    Meets (readPair (.ofGlyph (spot behind) g) double alone) b
      (Cuts (Lexeme.cutPair g after double c) behind) := by
  refine (meets_peek h (by decide)).bind ?_
  rintro next b' ⟨rfl, hb'⟩
  cases after with
  | nil => exact meets_pure (hc b' hb')
  | cons e after =>
      rw [List.head?_cons, Option.map_some]
      by_cases he : e.char = '='
      · rw [if_pos (congrArg some he), Lexeme.cutPair, if_pos he]
        refine (meets_read hb' (by decide)).bind ?_
        rintro second b'' ⟨rfl, hb''⟩
        exact meets_pure (cuts_plain double hb'')
      · rw [if_neg fun hnext => he (Option.some.inj hnext), Lexeme.cutPair, if_neg he]
        exact meets_pure (hc b' hb')

/-- A mark of one character. -/
theorem cuts_single (kind : Kind) (h : b.Stands (g :: behind) after n) :
    Cuts (.plain kind [g] after) behind (.ok (ofSeen kind (.ofGlyph (spot behind) g) [])) b :=
  cuts_plain kind (show b.Stands ([].reverse ++ g :: behind) after n from h)

/-- Both ways of finding a token choose by the same condition. -/
theorem meets_ite {r r' : Source.Reads (Except ScanFault Token)} {c c' : Cut} {p : Prop}
    [Decidable p] (h : p → Meets r b (Cuts c behind)) (h' : ¬ p → Meets r' b (Cuts c' behind)) :
    Meets (if p then r else r') b (Cuts (if p then c else c') behind) := by
  by_cases hp : p
  · rw [if_pos hp, if_pos hp]
    exact h hp
  · rw [if_neg hp, if_neg hp]
    exact h' hp

theorem meets_ok {r : Source.Reads Token} {c : Cut}
    (h : Meets r b fun t => Cuts c behind (.ok t)) :
    Meets (do return .ok (← r)) b (Cuts c behind) := by
  refine h.bind ?_
  intro t b' ht
  exact meets_pure ht

/-- A lexeme whose first character has been read. -/
theorem meets_readFrom (h : b.Stands (g :: behind) after 1) :
    Meets (readFrom (.ofGlyph (spot behind) g)) b (Cuts (Lexeme.cut g after) behind) := by
  rw [Lexeme.cut, readFrom, show (Seen.ofGlyph (spot behind) g).char = g.char from rfl]
  cases Kind.ofMark? g.char with
  | some kind => exact meets_pure (cuts_single kind h)
  | none =>
      dsimp only
      apply meets_ite
      · intro _
        exact meets_readPair .equal h fun b' hb' => cuts_single .assign hb'
      intro _
      apply meets_ite
      · intro _
        exact meets_readPair .notEqual h fun b' hb' => cuts_unknown hb'
      intro _
      apply meets_ite
      · intro _
        exact meets_pure (cuts_single .slash h)
      intro _
      apply meets_ite
      · intro _
        exact meets_readString h
      intro _
      apply meets_ite
      · intro hdigit
        exact meets_ok (meets_readNumber h hdigit)
      intro _
      apply meets_ite
      · intro hname
        exact meets_ok (meets_readName h hname)
      intro _
      exact meets_pure (cuts_unknown h)

/-! ## Gaps -/

/-- The skipped characters belong to the gap at the front of the source. -/
def Skips (inComment : Bool) (skipped rest : List Glyph) : Prop :=
  Lexeme.splitGapFrom inComment (skipped ++ rest) =
    (skipped ++ (Lexeme.splitGap rest).1, (Lexeme.splitGap rest).2)

/-- A comment goes to the end of its line. -/
theorem meets_skipComment {bound : Nat} (h : b.Stands behind after 0)
    (hbound : after.length ≤ bound) :
    Meets (skipComment bound) b fun _ b' => ∃ skipped rest, after = skipped ++ rest ∧
      Skips true skipped rest ∧ b'.Stands (skipped.reverse ++ behind) rest 0 := by
  induction bound generalizing b behind after with
  | zero =>
      obtain rfl := List.length_eq_zero_iff.mp (Nat.le_zero.mp hbound)
      exact meets_pure ⟨[], [], rfl, rfl, h⟩
  | succ bound ih =>
      cases after with
      | nil =>
          refine (meets_read_nil h).bind ?_
          rintro s b' ⟨rfl, hb'⟩
          exact meets_pure ⟨[], [], rfl, rfl, hb'⟩
      | cons g after =>
          refine (meets_read h (by decide)).bind ?_
          rintro s b' ⟨rfl, hb'⟩
          have hb' := hb'.mono (Nat.zero_le 1)
          dsimp only [Seen.ofGlyph]
          by_cases hfeed : g.char = '\n'
          · rw [if_pos hfeed]
            refine meets_pure ⟨[g], after, rfl, ?_, hb'⟩
            simp [Skips, Lexeme.splitGapFrom_comment, hfeed, Lexeme.splitGap]
          · rw [if_neg hfeed]
            refine (ih hb' (Nat.le_of_succ_le_succ hbound)).mono ?_
            rintro _ b'' ⟨skipped, rest, rfl, hskips, hb''⟩
            refine ⟨g :: skipped, rest, rfl, ?_, by simpa using hb''⟩
            rw [Skips, List.cons_append, Lexeme.splitGapFrom_comment, bne_iff_ne.mpr hfeed, hskips]
            rfl

/-- What is read after a gap, and where it leaves the buffer. -/
inductive NextRead (behind after : List Glyph) : Option (Except ScanFault Token) → Buffer → Prop
  | ended {b : Buffer} :
      Lexeme.splitGap after = (after, []) → b.Stands (after.reverse ++ behind) [] 0 →
      NextRead behind after none b
  | found {b : Buffer} {gap rest : List Glyph} {g : Glyph} {answer : Except ScanFault Token} :
      Lexeme.splitGap after = (gap, g :: rest) →
      Cuts (Lexeme.cut g rest) (gap.reverse ++ behind) answer b →
      NextRead behind after (some answer) b

/-- Skipped characters make the gap longer. -/
theorem NextRead.skip {skipped : List Glyph} {read : Option (Except ScanFault Token)}
    (h : NextRead (skipped.reverse ++ behind) after read b) (hskips : Skips false skipped after) :
    NextRead behind (skipped ++ after) read b := by
  cases h with
  | ended hgap hb =>
      refine .ended ?_ (by simpa using hb)
      rw [Lexeme.splitGap, hskips, hgap]
  | @found _ gap rest g answer hgap hcuts =>
      have hgap' : Lexeme.splitGap (skipped ++ after) = (skipped ++ gap, g :: rest) := by
        rw [Lexeme.splitGap, hskips, hgap]
      exact .found hgap' (by simpa using hcuts)

theorem solid_cons (hblank : ¬ Text.isBlank g.char = true)
    (hcomment : g.char = '/' → after.head?.map Glyph.char ≠ some '/') :
    Lexeme.Solid (g :: after) := by
  refine ⟨Bool.eq_false_iff.mpr hblank, ?_⟩
  intro hslash
  cases after with
  | nil => trivial
  | cons e after =>
      have he : e.char ≠ '/' := fun h => hcomment hslash (congrArg some h)
      exact beq_eq_false_iff_ne.mpr he

theorem splitGap_comment (hslash : g.char = '/')
    (hcomment : after.head?.map Glyph.char = some '/') :
    Lexeme.splitGap (g :: after) =
      (g :: (Lexeme.splitGapFrom true after).1, (Lexeme.splitGapFrom true after).2) := by
  cases after with
  | nil => exact nomatch hcomment
  | cons e after =>
      have he : e.char = '/' := Option.some.inj hcomment
      rw [Lexeme.splitGap_slashes hslash he, Lexeme.splitGapFrom_comment, he]
      rfl

/-- A character that begins no gap begins a lexeme. -/
theorem meets_readFrom_next (h : b.Stands (g :: behind) after 1)
    (hsolid : Lexeme.Solid (g :: after)) :
    Meets (do return some (← readFrom (.ofGlyph (spot behind) g))) b
      (NextRead behind (g :: after)) := by
  refine (meets_readFrom h).bind ?_
  intro answer b' hcuts
  exact meets_pure (.found (Lexeme.splitGap_solid hsolid) hcuts)

theorem meets_readNext {bound : Nat} (h : b.Stands behind after 0) (hbound : after.length < bound) :
    Meets (readNext bound) b (NextRead behind after) := by
  induction bound generalizing b behind after with
  | zero => exact absurd hbound (Nat.not_lt_zero _)
  | succ bound ih =>
      cases after with
      | nil =>
          refine (meets_read_nil h).bind ?_
          rintro s b' ⟨rfl, hb'⟩
          exact meets_pure (.ended rfl hb')
      | cons g after =>
          have hbound := Nat.lt_of_succ_lt_succ hbound
          refine (meets_read h (by decide)).bind ?_
          rintro s b' ⟨rfl, hb'⟩
          dsimp only [Seen.ofGlyph]
          by_cases hblank : Text.isBlank g.char = true
          · rw [if_pos hblank]
            refine (ih (hb'.mono (Nat.zero_le 1)) hbound).mono ?_
            intro read b'' hread
            have hskips : Skips false [g] after := Lexeme.splitGap_blank hblank after
            exact hread.skip hskips
          rw [if_neg hblank]
          by_cases hslash : g.char = '/'
          · rw [if_pos hslash]
            refine (meets_peek hb' (by decide)).bind ?_
            rintro next b'' ⟨rfl, hb''⟩
            by_cases hcomment : after.head?.map Glyph.char = some '/'
            · rw [if_pos hcomment]
              have hgap := splitGap_comment hslash hcomment
              refine (meets_bounded (meets_skipComment (hb''.mono (Nat.zero_le 1))
                (Nat.le_of_eq hb''.remaining_eq.symm))).bind ?_
              rintro _ b₃ ⟨skipped, rest, rfl, hskips, hb₃⟩
              have hlength : rest.length < bound := by
                rw [List.length_append] at hbound
                omega
              refine (ih hb₃ hlength).mono ?_
              intro read b₄ hread
              have hskips' : Skips false (g :: skipped) rest := by
                rw [hskips] at hgap
                exact hgap
              have hread' : NextRead ((g :: skipped).reverse ++ behind) rest read b₄ := by
                simpa using hread
              exact hread'.skip hskips'
            · rw [if_neg hcomment]
              exact meets_readFrom_next hb'' (solid_cons hblank fun _ => hcomment)
          · rw [if_neg hslash]
            exact meets_readFrom_next hb' (solid_cons hblank fun h => absurd h hslash)

end

/-! ## One token -/

namespace Step

/-- What the step says of the next token, in a source that ends in a given way. -/
def answer (ending : Ending) : Step → Except ScanFault Token
  | token tok _ _ _ => .ok tok
  | fault cause _ _ => .error cause
  | ended next => (Scan.stopAt ending next).map endAt

/-- The position where the step ends. -/
def next : Step → Position
  | token _ _ next _ => next
  | fault _ next _ => next
  | ended next => next

/-- The characters that the step leaves. -/
def rest : Step → List Glyph
  | token _ _ _ rest => rest
  | fault _ _ rest => rest
  | ended _ => []

end Step

/-- A gap and what stands behind it are all there is. -/
theorem splits {after gap rest : List Glyph} (h : Lexeme.splitGap after = (gap, rest)) :
    after = gap ++ rest ∧ Lexeme.Solid rest := by
  obtain ⟨gap', rest', rfl, hgap, hsolid⟩ := Lexeme.exists_gap after
  rw [Lexeme.splitGap_append hgap hsolid] at h
  obtain ⟨rfl, rfl⟩ := Prod.mk.inj h
  exact ⟨rfl, hsolid⟩

/-- Reading a token through the buffer is one step of scanning, which passes over the characters
that it does not leave. -/
theorem meets_read {b : Buffer} {behind after : List Glyph} (ending : Ending)
    (h : b.Stands behind after 0) :
    Meets (read ending) b fun answer b' =>
      answer = (step (spot behind) after).answer ending ∧
      ∃ passed, after = passed ++ (step (spot behind) after).rest ∧
        spot (passed.reverse ++ behind) = (step (spot behind) after).next ∧
        b'.Stands (passed.reverse ++ behind) (step (spot behind) after).rest 0 := by
  have hbound : after.length < b.remaining + 1 := by
    rw [h.remaining_eq]
    exact Nat.lt_succ_self _
  refine (meets_bounded (r := fun n => readNext (n + 1)) (meets_readNext h hbound)).bind ?_
  intro read b' hread
  cases hread with
  | ended hgap hb' =>
      refine (meets_get (Q := fun here b'' => here = b' ∧ b'' = b') ⟨rfl, rfl⟩).bind ?_
      rintro here b'' ⟨rfl, rfl⟩
      have hstep : step (spot behind) after = .ended (spot (after.reverse ++ behind)) := by
        rw [step, hgap, Source.spot_reverse_append]
      rw [hstep, hb'.position_eq]
      exact meets_pure ⟨rfl, after, (List.append_nil after).symm, rfl, hb'⟩
  | @found _ gap rest g answer hgap hcuts =>
      obtain ⟨rfl, hb'⟩ := hcuts
      obtain ⟨hafter, hsolid⟩ := splits hgap
      have hpassed : after = (gap ++ (Lexeme.cut g rest).taken) ++ (Lexeme.cut g rest).rest := by
        rw [hafter, List.append_assoc, Lexeme.Cut.taken_append_rest hsolid]
      have hspot : spot ((gap ++ (Lexeme.cut g rest).taken).reverse ++ behind) =
          (spot (gap.reverse ++ behind)).afterAll (Lexeme.cut g rest).taken := by
        rw [Source.spot_reverse_append, Source.spot_reverse_append, Position.afterAll_append]
      rw [← List.append_assoc, ← List.reverse_append] at hb'
      refine meets_pure ?_
      rw [step, hgap]
      dsimp only
      rw [← Source.spot_reverse_append]
      cases hcut : Lexeme.cut g rest with
      | lexeme kind text taken rest' =>
          rw [hcut] at hb' hpassed hspot
          exact ⟨rfl, _, hpassed, hspot, hb'⟩
      | unknown g' rest' =>
          rw [hcut] at hb' hpassed hspot
          exact ⟨rfl, _, hpassed, hspot, hb'⟩
      | unterminated taken =>
          rw [hcut] at hb' hpassed hspot
          exact ⟨rfl, _, hpassed, hspot, hb'⟩

end Token

end HamScript
