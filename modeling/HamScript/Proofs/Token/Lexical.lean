/-
# The lexical grammar

What a gap and a lexeme are, said without the functions that find them:

* a gap is a sequence of blanks and comments;
* a lexeme is a mark, `==`, `!=`, `=`, `/`, a number, a word or a quoted string, with what may not
  follow it;
* a stray character begins none of these.

`splitGap` takes off exactly the gap at the front of a source, and `cut` exactly the lexeme after
it.  What may not follow a lexeme belongs to the lexeme, so that a source has one reading.
-/
import HamScript.Proofs.Token.Classes

namespace HamScript.Lexeme

open Source (Glyph)
open Text (isBlank isDecimalDigit)

/-- All of the characters are of the class `p`. -/
def Within (p : Char → Bool) (gs : List Glyph) : Prop :=
  ∀ g ∈ gs, p g.char = true

/-- The characters do not begin with one of the class `p`. -/
def Stops (p : Char → Bool) : List Glyph → Prop
  | [] => True
  | g :: _ => p g.char = false

/-! ## Gaps -/

/-- The characters `gap` before `rest` are blanks and comments.  A comment ends with its line, or
with the source if nothing follows. -/
inductive Gap : (gap rest : List Glyph) → Prop
  | nil (rest : List Glyph) : Gap [] rest
  | blank {g : Glyph} {gap rest : List Glyph} :
      isBlank g.char = true → Gap gap rest → Gap (g :: gap) rest
  | comment {s₁ s₂ feed : Glyph} {body gap rest : List Glyph} :
      s₁.char = '/' → s₂.char = '/' → Within (· != '\n') body → feed.char = '\n' → Gap gap rest →
      Gap (s₁ :: s₂ :: body ++ feed :: gap) rest
  | lastComment {s₁ s₂ : Glyph} {body : List Glyph} :
      s₁.char = '/' → s₂.char = '/' → Within (· != '\n') body → Gap (s₁ :: s₂ :: body) []

/-- The characters begin with no gap. -/
def Solid : List Glyph → Prop
  | [] => True
  | g :: gs => isBlank g.char = false ∧ (g.char = '/' → Stops (· == '/') gs)

/-! ## Strings -/

/-- The characters `gs` between the quotes of a string stand for `value`: a backslash and the
character after it form a pair, every other character stands for itself. -/
inductive Body : (gs : List Glyph) → (value : List Char) → Prop
  | nil : Body [] []
  | plain {g : Glyph} {gs : List Glyph} {value : List Char} :
      g.char ≠ '"' → g.char ≠ '\\' → Body gs value → Body (g :: gs) (g.char :: value)
  | pair {g e : Glyph} {gs : List Glyph} {value : List Char} :
      g.char = '\\' → Body gs value → Body (g :: e :: gs) (unescape e.char ++ value)

/-- The characters `gs` go on with a string that no quote closes: they are a body, and at the end a
backslash may want its partner. -/
inductive Unclosed : (gs : List Glyph) → Prop
  | nil : Unclosed []
  | slash {g : Glyph} : g.char = '\\' → Unclosed [g]
  | plain {g : Glyph} {gs : List Glyph} :
      g.char ≠ '"' → g.char ≠ '\\' → Unclosed gs → Unclosed (g :: gs)
  | pair {g e : Glyph} {gs : List Glyph} : g.char = '\\' → Unclosed gs → Unclosed (g :: e :: gs)

/-! ## Lexemes -/

/-- The tokens of one character. -/
def marks : List (Char × Kind) :=
  [('(', .leftParen), (')', .rightParen), ('\x7b', .leftBrace), ('\x7d', .rightBrace),
    (',', .comma), ('.', .period), ('+', .plus), ('-', .minus), ('*', .star), ('&', .ampersand)]

/-- The reserved words. -/
def words : List (String × Kind) :=
  [("fn", .fnWord), ("let", .letWord), ("if", .ifWord), ("return", .returnWord),
    ("while", .whileWord), ("break", .breakWord), ("true", .trueWord), ("false", .falseWord)]

/-- The kind of a word: a reserved word has its own. -/
def IsWordKind (text : String) (kind : Kind) : Prop :=
  (text, kind) ∈ words ∨ kind = .ident ∧ ∀ k, (text, k) ∉ words

/-- The characters begin with a point and a digit. -/
def StartsFraction : List Glyph → Prop
  | point :: d :: _ => point.char = '.' ∧ isDecimalDigit d.char = true
  | _ => False

/-- The characters `taken` before `rest` are a lexeme of a kind and stand for a text. -/
inductive IsLexeme : (kind : Kind) → (text : String) → (taken rest : List Glyph) → Prop
  | mark {g : Glyph} {kind : Kind} (rest : List Glyph) :
      (g.char, kind) ∈ marks → IsLexeme kind (Glyph.text [g]) [g] rest
  | equal {g e : Glyph} (rest : List Glyph) :
      g.char = '=' → e.char = '=' → IsLexeme .equal (Glyph.text [g, e]) [g, e] rest
  | notEqual {g e : Glyph} (rest : List Glyph) :
      g.char = '!' → e.char = '=' → IsLexeme .notEqual (Glyph.text [g, e]) [g, e] rest
  | assign {g : Glyph} {rest : List Glyph} :
      g.char = '=' → Stops (· == '=') rest → IsLexeme .assign (Glyph.text [g]) [g] rest
  | slash {g : Glyph} {rest : List Glyph} :
      g.char = '/' → Stops (· == '/') rest → IsLexeme .slash (Glyph.text [g]) [g] rest
  | int {ds rest : List Glyph} :
      ds ≠ [] → Within isDecimalDigit ds → Stops isDecimalDigit rest → ¬ StartsFraction rest →
      IsLexeme .int (Glyph.text ds) ds rest
  | float {ds fs rest : List Glyph} {point : Glyph} :
      ds ≠ [] → Within isDecimalDigit ds → point.char = '.' → fs ≠ [] → Within isDecimalDigit fs →
      Stops isDecimalDigit rest →
      IsLexeme .float (Glyph.text (ds ++ point :: fs)) (ds ++ point :: fs) rest
  | word {g : Glyph} {gs rest : List Glyph} {kind : Kind} :
      isNameStart g.char = true → Within isNamePart gs → Stops isNamePart rest →
      IsWordKind (Glyph.text (g :: gs)) kind → IsLexeme kind (Glyph.text (g :: gs)) (g :: gs) rest
  | string {q q' : Glyph} {body : List Glyph} {value : List Char} (rest : List Glyph) :
      q.char = '"' → Body body value → q'.char = '"' →
      IsLexeme .string (String.ofList value) (q :: (body ++ [q'])) rest

/-- A lexeme stands at the front of the characters. -/
def BeginsLexeme (gs : List Glyph) : Prop :=
  ∃ kind text taken rest, taken ++ rest = gs ∧ IsLexeme kind text taken rest

/-- The character `g` before `rest` begins no gap, no string and no lexeme. -/
def Stray (g : Glyph) (rest : List Glyph) : Prop :=
  Solid (g :: rest) ∧ g.char ≠ '"' ∧ ¬ BeginsLexeme (g :: rest)

/-! ## Taking off a gap -/

theorem splitGapFrom_comment (g : Glyph) (gs : List Glyph) :
    splitGapFrom true (g :: gs) =
      (g :: (splitGapFrom (g.char != '\n') gs).1, (splitGapFrom (g.char != '\n') gs).2) := rfl

theorem splitGap_blank {g : Glyph} (h : isBlank g.char = true) (gs : List Glyph) :
    splitGap (g :: gs) = (g :: (splitGap gs).1, (splitGap gs).2) := by
  simp [splitGap, splitGapFrom, h]

theorem splitGap_slashes {s₁ s₂ : Glyph} (h₁ : s₁.char = '/') (h₂ : s₂.char = '/')
    (gs : List Glyph) :
    splitGap (s₁ :: s₂ :: gs) =
      (s₁ :: s₂ :: (splitGapFrom true gs).1, (splitGapFrom true gs).2) := by
  have hblank : isBlank '/' = false := rfl
  simp [splitGap, splitGapFrom, h₁, h₂, hblank, startsWith]

theorem splitGap_solid {gs : List Glyph} (h : Solid gs) : splitGap gs = ([], gs) := by
  cases gs with
  | nil => rfl
  | cons g gs =>
      obtain ⟨hblank, hslash⟩ := h
      have hcomment : (g.char == '/' && startsWith '/' gs) = false := by
        cases gs with
        | nil => simp [startsWith]
        | cons e gs =>
            rw [Bool.and_eq_false_imp]
            intro hg
            exact hslash (beq_iff_eq.mp hg)
      simp [splitGap, splitGapFrom, hblank, hcomment]

/-- A comment takes its line up to and with the line feed. -/
theorem splitGapFrom_line {body : List Glyph} {feed : Glyph} (hbody : Within (· != '\n') body)
    (hfeed : feed.char = '\n') (gs : List Glyph) :
    splitGapFrom true (body ++ feed :: gs) =
      (body ++ feed :: (splitGap gs).1, (splitGap gs).2) := by
  induction body with
  | nil => simp [splitGapFrom_comment, hfeed, splitGap]
  | cons g body ih =>
      have hg : (g.char != '\n') = true := hbody g List.mem_cons_self
      rw [List.cons_append, splitGapFrom_comment, hg,
        ih fun e he => hbody e (List.mem_cons_of_mem g he)]
      rfl

/-- A comment on the last line takes all of it. -/
theorem splitGapFrom_lastLine {body : List Glyph} (hbody : Within (· != '\n') body) :
    splitGapFrom true body = (body, []) := by
  induction body with
  | nil => rfl
  | cons g body ih =>
      have hg : (g.char != '\n') = true := hbody g List.mem_cons_self
      rw [splitGapFrom_comment, hg, ih fun e he => hbody e (List.mem_cons_of_mem g he)]

/-- `splitGap` takes off the whole gap: a gap is only ever followed by what begins with none. -/
theorem splitGap_append {gap rest : List Glyph} (hgap : Gap gap rest) (hrest : Solid rest) :
    splitGap (gap ++ rest) = (gap, rest) := by
  induction hgap with
  | nil rest => exact splitGap_solid hrest
  | blank hblank hgap ih => rw [List.cons_append, splitGap_blank hblank, ih hrest]
  | @comment s₁ s₂ feed body gap rest h₁ h₂ hbody hfeed hgap ih =>
      have hsource : s₁ :: s₂ :: body ++ feed :: gap ++ rest =
          s₁ :: s₂ :: (body ++ feed :: (gap ++ rest)) := by simp
      rw [hsource, splitGap_slashes h₁ h₂, splitGapFrom_line hbody hfeed, ih hrest]
      rfl
  | lastComment h₁ h₂ hbody =>
      rw [List.append_nil, splitGap_slashes h₁ h₂, splitGapFrom_lastLine hbody]

/-- All elements of a list are of a class, or there is a first one that is not. -/
theorem exists_first_outside {α : Type} (p : α → Bool) (l : List α) :
    (∀ a ∈ l, p a = true) ∨ ∃ before a after, (∀ b ∈ before, p b = true) ∧ p a = false ∧
      l = before ++ a :: after := by
  induction l with
  | nil => exact .inl fun a ha => absurd ha List.not_mem_nil
  | cons a l ih =>
      by_cases ha : p a = true
      · rcases ih with hall | ⟨before, b, after, hbefore, hb, rfl⟩
        · exact .inl (List.forall_mem_cons.mpr ⟨ha, hall⟩)
        · exact .inr ⟨a :: before, b, after, List.forall_mem_cons.mpr ⟨ha, hbefore⟩, hb, rfl⟩
      · exact .inr ⟨[], a, l, fun b hb => absurd hb List.not_mem_nil, Bool.eq_false_iff.mpr ha, rfl⟩

/-- Every source begins with a gap, be it empty, after which no gap begins. -/
theorem exists_gap : (gs : List Glyph) → ∃ gap rest, gs = gap ++ rest ∧ Gap gap rest ∧ Solid rest
  | [] => ⟨[], [], rfl, .nil [], trivial⟩
  | g :: gs => by
      by_cases hblank : isBlank g.char = true
      · obtain ⟨gap, rest, rfl, hgap, hrest⟩ := exists_gap gs
        exact ⟨g :: gap, rest, rfl, .blank hblank hgap, hrest⟩
      · by_cases hslash : g.char = '/' → Stops (· == '/') gs
        · exact ⟨[], g :: gs, rfl, .nil _, Bool.eq_false_iff.mpr hblank, hslash⟩
        · match gs with
          | [] => exact absurd (fun _ => trivial) hslash
          | s₂ :: gs =>
              obtain ⟨h₁, hstops⟩ := Classical.not_imp.mp hslash
              have h₂ : s₂.char = '/' := by simpa [Stops] using hstops
              rcases exists_first_outside (·.char != '\n') gs with
                hline | ⟨body, feed, more, hbody, hfeed, rfl⟩
              · exact ⟨g :: s₂ :: gs, [], by simp, .lastComment h₁ h₂ hline, trivial⟩
              · obtain ⟨gap, rest, rfl, hgap, hrest⟩ := exists_gap more
                exact ⟨g :: s₂ :: body ++ feed :: gap, rest, by simp,
                  .comment h₁ h₂ hbody (bne_eq_false_iff_eq.mp hfeed) hgap, hrest⟩
termination_by gs => gs.length

/-! ## Reading a string -/

theorem stringBody?_quote {q : Glyph} (hq : q.char = '"') (gs : List Glyph) :
    stringBody? (q :: gs) = some ⟨[], [q], gs⟩ := by
  rw [stringBody?.eq_def (q :: gs)]
  exact if_pos hq

theorem stringBody?_plain {g : Glyph} (hq : g.char ≠ '"') (hs : g.char ≠ '\\') (gs : List Glyph) :
    stringBody? (g :: gs) = (stringBody? gs).map (.push [g.char] [g]) := by
  rw [stringBody?.eq_def (g :: gs)]
  exact (if_neg hq).trans (if_neg hs)

theorem stringBody?_pair {g : Glyph} (hg : g.char = '\\') (e : Glyph) (gs : List Glyph) :
    stringBody? (g :: e :: gs) = (stringBody? gs).map (.push (unescape e.char) [g, e]) := by
  have hq : g.char ≠ '"' := by rw [hg]; decide
  rw [stringBody?.eq_def (g :: e :: gs)]
  exact (if_neg hq).trans (if_pos hg)

theorem stringBody?_closed {body : List Glyph} {value : List Char} {q : Glyph}
    (hbody : Body body value) (hq : q.char = '"') (rest : List Glyph) :
    stringBody? (body ++ q :: rest) = some ⟨value, body ++ [q], rest⟩ := by
  induction hbody with
  | nil => exact stringBody?_quote hq rest
  | plain hquote hslash hbody ih =>
      rw [List.cons_append, stringBody?_plain hquote hslash, ih]
      rfl
  | @pair g e gs value hslash hbody ih =>
      rw [List.cons_append, List.cons_append, stringBody?_pair hslash, ih]
      rfl

theorem stringBody?_unclosed {gs : List Glyph} (h : Unclosed gs) : stringBody? gs = none := by
  induction h with
  | nil => rfl
  | slash hslash => simp [stringBody?, hslash]
  | plain hquote hslash hgs ih => rw [stringBody?_plain hquote hslash, ih, Option.map_none]
  | pair hslash hgs ih => rw [stringBody?_pair hslash, ih, Option.map_none]

/-- After its opening quote a string is closed by a quote, or not at all. -/
theorem exists_body : (gs : List Glyph) →
    Unclosed gs ∨ ∃ body value q rest, Body body value ∧ q.char = '"' ∧ gs = body ++ q :: rest
  | [] => .inl .nil
  | g :: gs => by
      by_cases hquote : g.char = '"'
      · exact .inr ⟨[], [], g, gs, .nil, hquote, rfl⟩
      · by_cases hslash : g.char = '\\'
        · match gs with
          | [] => exact .inl (.slash hslash)
          | e :: gs =>
              rcases exists_body gs with hgs | ⟨body, value, q, rest, hbody, hq, rfl⟩
              · exact .inl (.pair hslash hgs)
              · exact .inr ⟨g :: e :: body, _, q, rest, .pair hslash hbody, hq, rfl⟩
        · rcases exists_body gs with hgs | ⟨body, value, q, rest, hbody, hq, rfl⟩
          · exact .inl (.plain hquote hslash hgs)
          · exact .inr ⟨g :: body, _, q, rest, .plain hquote hslash hbody, hq, rfl⟩
termination_by gs => gs.length

/-! ## Cutting off a lexeme

First that `cut` finds every lexeme, class by class. -/

theorem ofMark?_eq_some_iff {c : Char} {kind : Kind} :
    Kind.ofMark? c = some kind ↔ (c, kind) ∈ marks := by
  constructor
  · intro h
    simp only [Kind.ofMark?] at h
    split at h <;> cases h <;> decide
  · intro h
    simp only [marks, List.mem_cons, List.not_mem_nil, or_false, Prod.mk.injEq] at h
    rcases h with ⟨rfl, rfl⟩ | ⟨rfl, rfl⟩ | ⟨rfl, rfl⟩ | ⟨rfl, rfl⟩ | ⟨rfl, rfl⟩ | ⟨rfl, rfl⟩ |
      ⟨rfl, rfl⟩ | ⟨rfl, rfl⟩ | ⟨rfl, rfl⟩ | ⟨rfl, rfl⟩ <;> rfl

theorem isWordKind_iff {text : String} {kind : Kind} :
    IsWordKind text kind ↔ kind = (Kind.ofWord? text).getD .ident := by
  simp only [Kind.ofWord?]
  split <;> simp_all [IsWordKind, words]

/-- Every mark is punctuation. -/
theorem punctuation_of_mem_marks {c : Char} {kind : Kind} (h : (c, kind) ∈ marks) :
    Text.CodeRange.anyHolds Text.punctuation c = true :=
  have hall : ∀ m ∈ marks, Text.CodeRange.anyHolds Text.punctuation m.1 = true := by decide
  hall (c, kind) h

/-- What the first character of a digit or a word is not. -/
structure Unmarked (c : Char) : Prop where
  ofMark? : Kind.ofMark? c = none
  ne_equals : c ≠ '='
  ne_bang : c ≠ '!'
  ne_slash : c ≠ '/'
  ne_quote : c ≠ '"'

theorem unmarked_of_not_punctuation {c : Char}
    (h : Text.CodeRange.anyHolds Text.punctuation c = false) : Unmarked c where
  ofMark? := by
    refine Option.eq_none_iff_forall_ne_some.mpr fun kind hkind => ?_
    rw [punctuation_of_mem_marks (ofMark?_eq_some_iff.mp hkind)] at h
    exact Bool.noConfusion h
  ne_equals := by rintro rfl; exact absurd h (by decide)
  ne_bang := by rintro rfl; exact absurd h (by decide)
  ne_slash := by rintro rfl; exact absurd h (by decide)
  ne_quote := by rintro rfl; exact absurd h (by decide)

theorem takeWhile_append {p : Char → Bool} {taken rest : List Glyph} (ht : Within p taken)
    (hr : Stops p rest) : (taken ++ rest).takeWhile (fun g => p g.char) = taken := by
  rw [List.takeWhile_append_of_pos ht]
  cases rest with
  | nil => simp
  | cons g rest =>
      have hg : p g.char = false := hr
      simp [hg]

theorem dropWhile_append {p : Char → Bool} {taken rest : List Glyph} (ht : Within p taken)
    (hr : Stops p rest) : (taken ++ rest).dropWhile (fun g => p g.char) = rest := by
  rw [List.dropWhile_append_of_pos ht]
  cases rest with
  | nil => rfl
  | cons g rest =>
      have hg : p g.char = false := hr
      simp [hg]

theorem cutNumber_int {ds rest : List Glyph} (hds : Within isDecimalDigit ds)
    (hstop : Stops isDecimalDigit rest) (hfraction : ¬ StartsFraction rest) :
    cutNumber (ds ++ rest) = .plain .int ds rest := by
  simp only [cutNumber, takeWhile_append hds hstop, dropWhile_append hds hstop]
  match rest with
  | [] => rfl
  | [point] => simp [startsWithDigit]
  | point :: d :: rest =>
      have hpoint : (point.char == '.' && startsWithDigit (d :: rest)) = false := by
        rw [Bool.eq_false_iff]
        intro h
        rw [Bool.and_eq_true, beq_iff_eq] at h
        exact hfraction h
      simp [hpoint]

theorem cutNumber_float {ds fs rest : List Glyph} {point : Glyph}
    (hds : Within isDecimalDigit ds) (hpoint : point.char = '.') (hne : fs ≠ [])
    (hfs : Within isDecimalDigit fs) (hstop : Stops isDecimalDigit rest) :
    cutNumber (ds ++ point :: fs ++ rest) = .plain .float (ds ++ point :: fs) rest := by
  have hstop' : Stops isDecimalDigit (point :: (fs ++ rest)) := by
    show isDecimalDigit point.char = false
    rw [hpoint]
    rfl
  have hstarts : startsWithDigit (fs ++ rest) = true := by
    obtain ⟨d, fs', rfl⟩ := List.exists_cons_of_ne_nil hne
    exact hfs d List.mem_cons_self
  rw [List.append_assoc, List.cons_append]
  simp only [cutNumber, takeWhile_append hds hstop', dropWhile_append hds hstop',
    takeWhile_append hfs hstop, dropWhile_append hfs hstop]
  simp [hpoint, hstarts]

theorem cutName_word {gs rest : List Glyph} {kind : Kind} (hgs : Within isNamePart gs)
    (hstop : Stops isNamePart rest) (hkind : IsWordKind (Glyph.text gs) kind) :
    cutName (gs ++ rest) = .plain kind gs rest := by
  simp only [cutName, takeWhile_append hgs hstop, dropWhile_append hgs hstop]
  rw [← isWordKind_iff.mp hkind]

theorem cut_digit {g : Glyph} (h : isDecimalDigit g.char = true) (gs : List Glyph) :
    cut g gs = cutNumber (g :: gs) := by
  have hg := unmarked_of_not_punctuation (Text.not_punctuation_of_isDecimalDigit h)
  simp [cut, hg.ofMark?, hg.ne_equals, hg.ne_bang, hg.ne_slash, hg.ne_quote, h]

theorem cut_nameStart {g : Glyph} (h : isNameStart g.char = true) (gs : List Glyph) :
    cut g gs = cutName (g :: gs) := by
  have hg := unmarked_of_not_punctuation (Text.not_punctuation_of_isNameStart h)
  have hdigit := Text.not_isDecimalDigit_of_isNameStart h
  simp [cut, hg.ofMark?, hg.ne_equals, hg.ne_bang, hg.ne_slash, hg.ne_quote, hdigit, h]

theorem cut_quote {g : Glyph} (h : g.char = '"') (gs : List Glyph) :
    cut g gs = cutString g gs := by
  simp [cut, h, Kind.ofMark?]

theorem isNamePart_of_isNameStart {c : Char} (h : isNameStart c = true) : isNamePart c = true := by
  simp [isNamePart, h]

/-- `cut` finds the lexeme at the front of a source. -/
theorem IsLexeme.cut_eq {kind : Kind} {text : String} {taken rest gs : List Glyph} {g : Glyph}
    (h : IsLexeme kind text taken rest) (hsource : taken ++ rest = g :: gs) :
    cut g gs = .lexeme kind text taken rest := by
  cases h with
  | mark rest hmark =>
      obtain ⟨rfl, rfl⟩ := List.cons.inj hsource
      simp [cut, ofMark?_eq_some_iff.mpr hmark, Cut.plain]
  | equal rest hg he =>
      obtain ⟨rfl, rfl⟩ := List.cons.inj hsource
      simp [cut, hg, he, Kind.ofMark?, cutPair, Cut.plain]
  | notEqual rest hg he =>
      obtain ⟨rfl, rfl⟩ := List.cons.inj hsource
      simp [cut, hg, he, Kind.ofMark?, cutPair, Cut.plain]
  | assign hg hstop =>
      obtain ⟨rfl, rfl⟩ := List.cons.inj hsource
      cases rest with
      | nil => simp [cut, hg, Kind.ofMark?, cutPair, Cut.plain]
      | cons e rest =>
          have he : e.char ≠ '=' := beq_eq_false_iff_ne.mp hstop
          simp [cut, hg, he, Kind.ofMark?, cutPair, Cut.plain]
  | slash hg hstop =>
      obtain ⟨rfl, rfl⟩ := List.cons.inj hsource
      simp [cut, hg, Kind.ofMark?, Cut.plain]
  | int hne hds hstop hfraction =>
      obtain ⟨d, ds, rfl⟩ := List.exists_cons_of_ne_nil hne
      obtain ⟨rfl, rfl⟩ := List.cons.inj hsource
      rw [cut_digit (hds d List.mem_cons_self)]
      exact cutNumber_int hds hstop hfraction
  | float hne hds hpoint hne' hfs hstop =>
      obtain ⟨d, ds, rfl⟩ := List.exists_cons_of_ne_nil hne
      obtain ⟨rfl, rfl⟩ := List.cons.inj hsource
      rw [cut_digit (hds d List.mem_cons_self)]
      exact cutNumber_float hds hpoint hne' hfs hstop
  | @word w ws rest kind hstart hws hstop hkind =>
      obtain ⟨rfl, rfl⟩ := List.cons.inj hsource
      rw [cut_nameStart hstart]
      have hword : Within isNamePart (w :: ws) :=
        List.forall_mem_cons.mpr ⟨isNamePart_of_isNameStart hstart, hws⟩
      exact cutName_word hword hstop hkind
  | @string q q' body value rest hq hbody hq' =>
      have hrest : body ++ [q'] ++ rest = body ++ q' :: rest := by simp
      obtain ⟨rfl, rfl⟩ := List.cons.inj hsource
      show cut q (body ++ [q'] ++ rest) = _
      rw [cut_quote hq, hrest, cutString, stringBody?_closed hbody hq']

/-! Conversely, what `cut` finds no lexeme in begins with none. -/

theorem within_takeWhile (p : Char → Bool) (gs : List Glyph) :
    Within p (gs.takeWhile fun g => p g.char) :=
  fun g hg => List.all_eq_true.mp List.all_takeWhile g hg

theorem stops_dropWhile (p : Char → Bool) : (gs : List Glyph) →
    Stops p (gs.dropWhile fun g => p g.char)
  | [] => trivial
  | g :: gs => by
      by_cases hg : p g.char = true
      · simpa [hg] using stops_dropWhile p gs
      · simp [hg, Stops]

theorem beginsLexeme_of_isDecimalDigit {g : Glyph} (h : isDecimalDigit g.char = true)
    (gs : List Glyph) : BeginsLexeme (g :: gs) := by
  let isDigit := fun g : Glyph => isDecimalDigit g.char
  have hne : ∀ {d : Glyph} {ds : List Glyph}, isDecimalDigit d.char = true →
      (d :: ds).takeWhile isDigit ≠ [] := by
    intro d ds hd
    simp [isDigit, hd]
  have hds := within_takeWhile isDecimalDigit (g :: gs)
  have hstop := stops_dropWhile isDecimalDigit (g :: gs)
  have hsource : (g :: gs).takeWhile isDigit ++ (g :: gs).dropWhile isDigit = g :: gs :=
    List.takeWhile_append_dropWhile
  by_cases hfraction : StartsFraction ((g :: gs).dropWhile isDigit)
  · match hrest : (g :: gs).dropWhile isDigit with
    | [] | [_] => rw [hrest] at hfraction; exact hfraction.elim
    | point :: d :: rest =>
        rw [hrest] at hfraction hsource
        obtain ⟨hpoint, hd⟩ := hfraction
        have hmore : (d :: rest).takeWhile isDigit ++ (d :: rest).dropWhile isDigit = d :: rest :=
          List.takeWhile_append_dropWhile
        refine ⟨_, _, (g :: gs).takeWhile isDigit ++ point :: (d :: rest).takeWhile isDigit,
          (d :: rest).dropWhile isDigit, ?_,
          .float (hne h) hds hpoint (hne hd) (within_takeWhile _ _) (stops_dropWhile _ _)⟩
        rw [List.append_assoc, List.cons_append, hmore, hsource]
  · exact ⟨_, _, _, _, hsource, .int (hne h) hds hstop hfraction⟩

theorem beginsLexeme_of_isNameStart {g : Glyph} (h : isNameStart g.char = true)
    (gs : List Glyph) : BeginsLexeme (g :: gs) := by
  refine ⟨_, _, g :: gs.takeWhile fun g => isNamePart g.char,
    gs.dropWhile fun g => isNamePart g.char,
    ?_, .word h (within_takeWhile _ _) (stops_dropWhile _ _) (isWordKind_iff.mpr rfl)⟩
  rw [List.cons_append, List.takeWhile_append_dropWhile]

/-- `cut` finds nothing in a source that begins with a stray character. -/
theorem Stray.cut_eq {g : Glyph} {gs : List Glyph} (h : Stray g gs) : cut g gs = .unknown g gs := by
  obtain ⟨hsolid, hquote, hnone⟩ := h
  have hmark : Kind.ofMark? g.char = none :=
    Option.eq_none_iff_forall_ne_some.mpr fun kind hkind =>
      hnone ⟨_, _, [g], gs, rfl, .mark gs (ofMark?_eq_some_iff.mp hkind)⟩
  have hequals : g.char ≠ '=' := by
    intro hg
    cases gs with
    | nil => exact hnone ⟨_, _, [g], [], rfl, .assign hg trivial⟩
    | cons e gs =>
        by_cases he : e.char = '='
        · exact hnone ⟨_, _, [g, e], gs, rfl, .equal gs hg he⟩
        · exact hnone ⟨_, _, [g], e :: gs, rfl, .assign hg (beq_eq_false_iff_ne.mpr he)⟩
  have hslash : g.char ≠ '/' := fun hg =>
    hnone ⟨_, _, [g], gs, rfl, .slash hg (hsolid.2 hg)⟩
  have hdigit : isDecimalDigit g.char = false :=
    Bool.eq_false_iff.mpr fun hg => hnone (beginsLexeme_of_isDecimalDigit hg gs)
  have hname : isNameStart g.char = false :=
    Bool.eq_false_iff.mpr fun hg => hnone (beginsLexeme_of_isNameStart hg gs)
  have hpair : g.char = '!' → cutPair g gs .notEqual (.unknown g gs) = .unknown g gs := by
    intro hg
    cases gs with
    | nil => rfl
    | cons e gs =>
        have he : e.char ≠ '=' := fun he => hnone ⟨_, _, [g, e], gs, rfl, .notEqual gs hg he⟩
        simp [cutPair, he]
  by_cases hbang : g.char = '!'
  · simp [cut, hbang, Kind.ofMark?, hpair hbang]
  · simp [cut, hmark, hequals, hslash, hquote, hdigit, hname, hbang]

theorem cut_unclosed {q : Glyph} {gs : List Glyph} (hq : q.char = '"') (h : Unclosed gs) :
    cut q gs = .unterminated (q :: gs) := by
  rw [cut_quote hq, cutString, stringBody?_unclosed h]

/-- What stands at the front of a source that begins with no gap. -/
theorem Solid.cases {g : Glyph} {gs : List Glyph} (h : Solid (g :: gs)) :
    BeginsLexeme (g :: gs) ∨ Stray g gs ∨ g.char = '"' ∧ Unclosed gs := by
  by_cases hquote : g.char = '"'
  · rcases exists_body gs with hgs | ⟨body, value, q, rest, hbody, hq, rfl⟩
    · exact .inr (.inr ⟨hquote, hgs⟩)
    · exact .inl ⟨_, _, g :: (body ++ [q]), rest, by simp, .string rest hquote hbody hq⟩
  · by_cases hlexeme : BeginsLexeme (g :: gs)
    · exact .inl hlexeme
    · exact .inr (.inl ⟨h, hquote, hlexeme⟩)

/-- No gap begins where a lexeme does. -/
theorem IsLexeme.solid {kind : Kind} {text : String} {taken rest : List Glyph}
    (h : IsLexeme kind text taken rest) : Solid (taken ++ rest) := by
  have hpunctuation : ∀ {g : Glyph} {gs : List Glyph},
      Text.CodeRange.anyHolds Text.punctuation g.char = true → g.char ≠ '/' → Solid (g :: gs) :=
    fun hg hne => ⟨Text.not_isBlank_of_punctuation hg, fun hs => absurd hs hne⟩
  cases h with
  | mark rest hmark =>
      have hall : ∀ m ∈ marks, m.1 ≠ '/' := by decide
      exact hpunctuation (punctuation_of_mem_marks hmark) (hall _ hmark)
  | equal rest hg he => exact hpunctuation (by rw [hg]; rfl) (by rw [hg]; decide)
  | notEqual rest hg he => exact hpunctuation (by rw [hg]; rfl) (by rw [hg]; decide)
  | assign hg hstop => exact hpunctuation (by rw [hg]; rfl) (by rw [hg]; decide)
  | slash hg hstop =>
      exact ⟨Text.not_isBlank_of_punctuation (by rw [hg]; rfl), fun _ => hstop⟩
  | int hne hds hstop hfraction =>
      obtain ⟨d, ds, rfl⟩ := List.exists_cons_of_ne_nil hne
      have hd := hds d List.mem_cons_self
      have hmark := unmarked_of_not_punctuation (Text.not_punctuation_of_isDecimalDigit hd)
      exact ⟨Text.not_isBlank_of_isDecimalDigit hd, fun hs => absurd hs hmark.ne_slash⟩
  | float hne hds hpoint hne' hfs hstop =>
      obtain ⟨d, ds, rfl⟩ := List.exists_cons_of_ne_nil hne
      have hd := hds d List.mem_cons_self
      have hmark := unmarked_of_not_punctuation (Text.not_punctuation_of_isDecimalDigit hd)
      exact ⟨Text.not_isBlank_of_isDecimalDigit hd, fun hs => absurd hs hmark.ne_slash⟩
  | word hstart hws hstop hkind =>
      have hmark := unmarked_of_not_punctuation (Text.not_punctuation_of_isNameStart hstart)
      exact ⟨Text.not_isBlank_of_isNameStart hstart, fun hs => absurd hs hmark.ne_slash⟩
  | string rest hq hbody hq' => exact hpunctuation (by rw [hq]; rfl) (by rw [hq]; decide)

theorem IsLexeme.taken_ne_nil {kind : Kind} {text : String} {taken rest : List Glyph}
    (h : IsLexeme kind text taken rest) : taken ≠ [] := by
  cases h <;> simp_all

end HamScript.Lexeme
