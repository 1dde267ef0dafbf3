/-
# Spelling tokens

A text that is put together from lexemes and blanks is scanned as the tokens of its lexemes, if each
lexeme is followed by something that does not go on with it.  `Spells F gs P` says this of a piece
`gs` of such a text: wherever it stands, before anything that `F` holds of, it is scanned as tokens
that `P` holds of, and they all stand on one line.  Pieces are put together by `append`.

Proved of the pieces that expressions are written with: marks, operators, names, reserved words,
whole numbers and quoted texts.
-/
import HamScript.Proofs.Syntax.Grammar
import HamScript.Proofs.Text.Literals
import HamScript.Proofs.Token.Lines

namespace HamScript

open Grammar (IsInt)
open Lexeme (Body Gap IsLexeme StartsFraction Stops Within isNamePart isNameStart)
open Source (Glyph Position Span)

/-! ## Texts as characters -/

namespace Source.Glyph

theorem ofText_append (s t : String) : ofText (s ++ t) = ofText s ++ ofText t := by
  rw [ofText, String.toList_append, List.map_append]
  rfl

theorem text_map_ofChar (cs : List Char) : text (cs.map ofChar) = String.ofList cs := by
  rw [text, List.map_map]
  exact congrArg String.ofList (List.map_id cs)

@[simp] theorem text_ofText (s : String) : text (ofText s) = s := by
  rw [ofText, text_map_ofChar, String.ofList_toList]

theorem countFeeds_map_ofChar {cs : List Char} (h : '\n' ∉ cs) : countFeeds (cs.map ofChar) = 0 := by
  rw [countFeeds, List.countP_eq_zero]
  intro g hg hfeed
  obtain ⟨c, hc, rfl⟩ := List.mem_map.mp hg
  obtain rfl : c = '\n' := beq_iff_eq.mp hfeed
  exact h hc

end Source.Glyph

/-! ## Pieces -/

/-- The tokens all stand on the line. -/
def Token.OnLine (line : Int) (ts : List Token) : Prop :=
  ∀ t ∈ ts, t.span.first.line = line ∧ t.span.last.line = line

/-- The characters `gs` are on one line, and before what `F` holds of they are scanned as tokens that
`P` holds of. -/
structure Spells (F : List Glyph → Prop) (gs : List Glyph) (P : List Token → Prop) : Prop where
  countFeeds : Glyph.countFeeds gs = 0
  lexes {p : Position} {rest : List Glyph} {us : List Token} {stop : Except ScanFault Position} :
    F rest → Lexes .finished (p.afterAll gs) rest us stop →
    ∃ ts, Token.OnLine p.line ts ∧ P ts ∧ Lexes .finished p (gs ++ rest) (ts ++ us) stop

namespace Spells

variable {F G : List Glyph → Prop} {gs hs : List Glyph} {P Q : List Token → Prop}

theorem line_afterAll (h : Spells F gs P) (p : Position) : (p.afterAll gs).line = p.line := by
  rw [Position.line_afterAll, h.countFeeds]
  exact Int.add_zero _

/-- One piece and then another one, which does not go on with it. -/
theorem append (h : Spells F gs P) (h' : Spells G hs Q) (hfollow : ∀ rest, G rest → F (hs ++ rest)) :
    Spells G (gs ++ hs) fun ts => ∃ us vs, ts = us ++ vs ∧ P us ∧ Q vs where
  countFeeds := by rw [Glyph.countFeeds_append, h.countFeeds, h'.countFeeds]
  lexes {p rest us stop} hrest hlexes := by
    rw [Position.afterAll_append] at hlexes
    obtain ⟨vs, hline', hvs, hlexes⟩ := h'.lexes hrest hlexes
    obtain ⟨ts, hline, hts, hlexes⟩ := h.lexes (hfollow rest hrest) hlexes
    rw [h.line_afterAll] at hline'
    refine ⟨ts ++ vs, fun t ht => ?_, ⟨ts, vs, rfl, hts, hvs⟩, ?_⟩
    · exact (List.mem_append.mp ht).elim (hline t) (hline' t)
    · rwa [List.append_assoc, List.append_assoc]

/-- What is known of the tokens may be used together with where they stand. -/
theorem mono (h : Spells F gs P) (hPQ : ∀ line ts, Token.OnLine line ts → P ts → Q ts) :
    Spells F gs Q where
  countFeeds := h.countFeeds
  lexes {p rest us stop} hrest hlexes := by
    obtain ⟨ts, hline, hts, hlexes⟩ := h.lexes hrest hlexes
    exact ⟨ts, hline, hPQ p.line ts hline hts, hlexes⟩

/-- A lexeme is scanned as its token. -/
theorem lexeme {kind : Kind} {text : String} (hfeeds : Glyph.countFeeds gs = 0)
    (h : ∀ rest, F rest → IsLexeme kind text gs rest) :
    Spells F gs fun ts => ∃ t, ts = [t] ∧ t.kind = kind ∧ t.text = text where
  countFeeds := hfeeds
  lexes {p rest us stop} hrest hlexes := by
    have hline : ∀ hs, Glyph.countFeeds hs ≤ Glyph.countFeeds gs → (p.afterAll hs).line = p.line := by
      intro hs hle
      rw [hfeeds] at hle
      rw [Position.line_afterAll, Nat.le_zero.mp hle]
      exact Int.add_zero _
    refine ⟨[⟨kind, text, .ofGlyphs p gs⟩], ?_, ⟨_, rfl, rfl, rfl⟩, ?_⟩
    · rintro t ht
      rw [List.mem_singleton.mp ht]
      exact ⟨rfl, hline _ (List.dropLast_sublist gs).countP_le⟩
    · have hgap : Gap [] (gs ++ rest) := .nil _
      exact .token hgap (h rest hrest) hlexes

/-- A blank is scanned as nothing. -/
theorem blank : Spells F (Glyph.ofText " ") (· = []) where
  countFeeds := rfl
  lexes {p rest us stop} _ hlexes := by
    refine ⟨[], (fun t ht => absurd ht List.not_mem_nil), rfl, ?_⟩
    change Lexes .finished (p.after (Glyph.ofChar ' ')) rest us stop at hlexes
    change Lexes .finished p (Glyph.ofChar ' ' :: rest) us stop
    cases hlexes with
    | done hgap => exact .done (.blank rfl hgap)
    | token hgap hlexeme hrest => exact .token (.blank rfl hgap) hlexeme hrest
    | stray hgap hstray => exact .stray (.blank rfl hgap) hstray
    | unclosed hgap hq hrest => exact .unclosed (.blank rfl hgap) hq hrest

end Spells

/-! ## What may follow -/

/-- The characters go on with no name and no number. -/
def Lexeme.Clear (rest : List Glyph) : Prop :=
  Stops isNamePart rest ∧ ¬ StartsFraction rest

namespace Lexeme

theorem clear_nil : Clear [] :=
  ⟨trivial, id⟩

theorem clear_cons {g : Glyph} {gs : List Glyph} (hpart : isNamePart g.char = false)
    (hpoint : g.char ≠ '.') : Clear (g :: gs) := by
  refine ⟨hpart, fun h => ?_⟩
  cases gs with
  | nil => exact h
  | cons e gs => exact hpoint h.1

/-- A point before a name does not go on with a number. -/
theorem clear_point {g e : Glyph} {gs : List Glyph} (hg : g.char = '.')
    (he : isNameStart e.char = true) : Clear (g :: e :: gs) := by
  constructor
  · change isNamePart g.char = false
    rw [hg]
    decide +kernel
  · rintro ⟨-, hdigit⟩
    rw [Text.not_isDecimalDigit_of_isNameStart he] at hdigit
    cases hdigit

/-- The characters begin with a blank. -/
def Spaced (rest : List Glyph) : Prop :=
  ∃ gs, rest = Glyph.ofText " " ++ gs

theorem Spaced.stops {p : Char → Bool} {rest : List Glyph} (h : Spaced rest) (hp : p ' ' = false) :
    Stops p rest := by
  obtain ⟨gs, rfl⟩ := h
  exact hp

theorem Spaced.clear {rest : List Glyph} (h : Spaced rest) : Clear rest := by
  obtain ⟨gs, rfl⟩ := h
  exact clear_cons (by decide +kernel) (by decide)

/-- A text that is a name and no reserved word. -/
def IsIdentifier (name : String) : Prop :=
  (∃ c cs, name.toList = c :: cs ∧ isNameStart c = true ∧ ∀ d ∈ cs, isNamePart d = true) ∧
    ∀ kind, (name, kind) ∉ words

theorem isIdentifier_iff {name : String} :
    IsIdentifier name ↔ (name.toList.head?.any isNameStart = true ∧
      name.toList.tail.all isNamePart = true) ∧ ∀ w ∈ words, name ≠ w.1 := by
  refine and_congr ?_ ?_
  · rw [List.all_eq_true]
    cases name.toList with
    | nil => exact ⟨nofun, nofun⟩
    | cons c cs =>
        constructor
        · rintro ⟨_, _, ⟨⟩, hc, hcs⟩
          exact ⟨hc, hcs⟩
        · rintro ⟨hc, hcs⟩
          exact ⟨c, cs, rfl, hc, hcs⟩
  · constructor
    · rintro h w hw rfl
      exact h _ hw
    · intro h kind hkind
      exact h _ hkind rfl

instance (name : String) : Decidable (IsIdentifier name) :=
  decidable_of_iff _ isIdentifier_iff.symm

end Lexeme

/-! ## What is read back -/

namespace Text

/-- What the written form of a character is read as by strings, which know the escapes of line
feeds, tabs, quotes and backslashes and take any other one as it stands. -/
def readBack (c : Char) : List Char :=
  if isPrintable c = true ∨ c = '\n' ∨ c = '\t' then [c] else escapeUnprintable c

theorem readBack_of_known {c : Char} (h : isPrintable c = true ∨ c = '\n' ∨ c = '\t') :
    readBack c = [c] :=
  if_pos h

theorem readBack_of_unknown {c : Char} (h : ¬(isPrintable c = true ∨ c = '\n' ∨ c = '\t')) :
    readBack c = escapeUnprintable c :=
  if_neg h

theorem ne_slash_of_unknown {c : Char} (h : ¬(isPrintable c = true ∨ c = '\n' ∨ c = '\t')) :
    c ≠ '\\' := by
  rintro rfl
  exact h (.inl (by decide +kernel))

theorem escapeIn_of_unknown {c : Char} (h : ¬(isPrintable c = true ∨ c = '\n' ∨ c = '\t')) :
    escapeIn '"' c = escapeUnprintable c := by
  have hquote : c ≠ '"' := by
    rintro rfl
    exact h (.inl (by decide +kernel))
  rw [escapeIn, if_neg (not_or.mpr ⟨hquote, ne_slash_of_unknown h⟩), if_neg (not_or.mp h).1]

/-- What is read back is the text itself if and only if strings know the escapes of all of its
characters. -/
theorem readBack_eq_self_iff {cs : List Char} :
    cs.flatMap readBack = cs ↔ ∀ c ∈ cs, isPrintable c = true ∨ c = '\n' ∨ c = '\t' := by
  induction cs with
  | nil => exact ⟨fun _ _ hc => absurd hc List.not_mem_nil, fun _ => rfl⟩
  | cons c cs ih =>
      rw [List.flatMap_cons, List.forall_mem_cons, ← ih]
      by_cases hc : isPrintable c = true ∨ c = '\n' ∨ c = '\t'
      · rw [readBack_of_known hc, List.singleton_append, List.cons_inj_right]
        exact ⟨fun h => ⟨hc, h⟩, And.right⟩
      · -- An escape begins with a backslash, which the character is not.
        refine ⟨fun h => ?_, fun h => absurd h.1 hc⟩
        rw [readBack_of_unknown hc] at h
        have hwritten := written_escapeUnprintable c
        generalize escapeUnprintable c = escape at h hwritten
        cases hwritten with
        | plain _ _ hprint => exact absurd (.inl hprint) hc
        | letter => exact absurd (List.cons.inj h).1.symm (ne_slash_of_unknown hc)
        | number => exact absurd (List.cons.inj h).1.symm (ne_slash_of_unknown hc)

end Text

namespace Spells

open Lexeme (Clear IsIdentifier Spaced)

/-! ## The pieces -/

variable {F : List Glyph → Prop}

/-- A lexeme that is known by its kind. -/
theorem sign {gs : List Glyph} {kind : Kind} {text : String} (hfeeds : Glyph.countFeeds gs = 0)
    (h : ∀ rest, F rest → IsLexeme kind text gs rest) :
    Spells F gs fun ts => ∃ t, ts = [t] ∧ t.kind = kind := by
  refine (lexeme hfeeds h).mono ?_
  rintro line ts - ⟨t, rfl, hkind, -⟩
  exact ⟨t, rfl, hkind⟩

/-- A text of one character that is a mark. -/
theorem mark (text : String) (kind : Kind) (h : ∃ c, text.toList = [c] ∧ (c, kind) ∈ Lexeme.marks) :
    Spells F (Glyph.ofText text) fun ts => ∃ t, ts = [t] ∧ t.kind = kind := by
  obtain ⟨c, htext, hmark⟩ := h
  have hfeed : ∀ m ∈ Lexeme.marks, '\n' ∉ [m.1] := by decide
  rw [Glyph.ofText, htext]
  exact sign (Glyph.countFeeds_map_ofChar (hfeed _ hmark)) fun rest _ => .mark rest hmark

/-- A word, before what is not a part of it. -/
theorem word {name : String} {c : Char} {cs : List Char} (hname : name.toList = c :: cs)
    (hc : isNameStart c = true) (hcs : ∀ d ∈ cs, isNamePart d = true) {kind : Kind}
    (hkind : Lexeme.IsWordKind name kind) :
    Spells Clear (Glyph.ofText name) fun ts => ∃ t, ts = [t] ∧ t.kind = kind ∧ t.text = name := by
  have hchars : Glyph.ofText name = Glyph.ofChar c :: cs.map Glyph.ofChar := by
    rw [Glyph.ofText, hname, List.map_cons]
  have hpart : ∀ d ∈ name.toList, isNamePart d = true := by
    rw [hname]
    exact List.forall_mem_cons.mpr ⟨Lexeme.isNamePart_of_isNameStart hc, hcs⟩
  have hfeed : '\n' ∉ name.toList := fun h => absurd (hpart _ h) (by decide +kernel)
  refine lexeme (Glyph.countFeeds_map_ofChar hfeed) fun rest hrest => ?_
  have hwithin : Within isNamePart (cs.map Glyph.ofChar) := by
    intro g hg
    obtain ⟨d, hd, rfl⟩ := List.mem_map.mp hg
    exact hcs d hd
  have htext : Glyph.text (Glyph.ofChar c :: cs.map Glyph.ofChar) = name := by
    rw [← hchars, Glyph.text_ofText]
  have hword := IsLexeme.word (g := Glyph.ofChar c) hc hwithin hrest.1 (htext.symm ▸ hkind)
  rwa [htext, ← hchars] at hword

theorem identifier {name : String} (h : IsIdentifier name) :
    Spells Clear (Glyph.ofText name)
      fun ts => ∃ t, ts = [t] ∧ t.kind = .ident ∧ t.text = name := by
  obtain ⟨⟨c, cs, hname, hc, hcs⟩, hwords⟩ := h
  exact word hname hc hcs (.inr ⟨rfl, hwords⟩)

/-- The digits of a whole number. -/
theorem numeral (n : Nat) :
    Spells Clear (Glyph.ofText (toString n))
      fun ts => ∃ t, ts = [t] ∧ t.kind = .int ∧ IsInt t.text n := by
  have hchars : (toString n).toList = Nat.toDigits 10 n := Nat.toList_repr
  have hdigits : ∀ c ∈ (toString n).toList, c.isDigit = true := by
    intro c hc
    rw [hchars] at hc
    exact Nat.isDigit_of_mem_toDigits (by decide) (by decide) hc
  have hfeed : '\n' ∉ (toString n).toList := fun h => absurd (hdigits _ h) (by decide)
  have hne : (toString n).toList ≠ [] := hchars ▸ Nat.toDigits_ne_nil
  have hwithin : Within Text.isDecimalDigit (Glyph.ofText (toString n)) := by
    intro g hg
    obtain ⟨c, hc, rfl⟩ := List.mem_map.mp hg
    exact Bool.or_eq_true_iff.mpr (.inl (hdigits c hc))
  have hstops : ∀ rest, Clear rest → Stops Text.isDecimalDigit rest := by
    intro rest hrest
    cases rest with
    | nil => trivial
    | cons g rest => exact (Bool.or_eq_false_iff.mp hrest.1).2
  have htoken : Spells Clear (Glyph.ofText (toString n))
      fun ts => ∃ t, ts = [t] ∧ t.kind = .int ∧ t.text = toString n := by
    refine lexeme (Glyph.countFeeds_map_ofChar hfeed) fun rest hrest => ?_
    have hne' : Glyph.ofText (toString n) ≠ [] := mt List.map_eq_nil_iff.mp hne
    have hint := IsLexeme.int hne' hwithin (hstops rest hrest) hrest.2
    rwa [Glyph.text_ofText] at hint
  refine htoken.mono ?_
  rintro line ts - ⟨t, rfl, hkind, htext⟩
  refine ⟨t, rfl, hkind, ?_⟩
  rw [htext]
  exact ⟨hne, hdigits, hchars ▸ (Decimal.valueOf_toDigits n).symm⟩

/-- Digits stand for themselves. -/
theorem body_hexDigits (width n : Nat) {gs : List Glyph} {value : List Char} (h : Body gs value) :
    Body ((Text.hexDigits width n).map Glyph.ofChar ++ gs) (Text.hexDigits width n ++ value) := by
  have hdigit : ∀ d < 16, Text.hexDigit d ≠ '"' ∧ Text.hexDigit d ≠ '\\' := by decide
  induction width with
  | zero => exact h
  | succ width ih =>
      obtain ⟨hquote, hslash⟩ := hdigit (n / 16 ^ width % 16) (Nat.mod_lt _ (by decide))
      exact .plain hquote hslash ih

/-- The written form of a character that is printable, a line feed or a tab stands for it. -/
theorem body_escapeIn {c : Char} (hc : Text.isPrintable c = true ∨ c = '\n' ∨ c = '\t')
    {gs : List Glyph} {value : List Char} (h : Body gs value) :
    Body ((Text.escapeIn '"' c).map Glyph.ofChar ++ gs) (c :: value) := by
  by_cases hquote : c = '"'
  · subst hquote
    exact .pair rfl h
  · by_cases hslash : c = '\\'
    · subst hslash
      exact .pair rfl h
    · rcases hc with hprint | rfl | rfl
      · have hescape : Text.escapeIn '"' c = [c] := by
          rw [Text.escapeIn, if_neg (not_or.mpr ⟨hquote, hslash⟩), if_pos hprint]
        rw [hescape]
        exact .plain hquote hslash h
      · exact .pair rfl h
      · exact .pair rfl h

/-- The written form of any other character has an escape that strings do not know, and stands for
itself. -/
theorem body_escapeUnprintable {c : Char}
    (hc : ¬(Text.isPrintable c = true ∨ c = '\n' ∨ c = '\t')) {gs : List Glyph} {value : List Char}
    (h : Body gs value) :
    Body ((Text.escapeUnprintable c).map Glyph.ofChar ++ gs) (Text.escapeUnprintable c ++ value) := by
  have hletters : ∀ p ∈ Text.letters, (Text.isPrintable p.2 = true ∨ p.2 = '\n' ∨ p.2 = '\t') ∨
      Lexeme.unescape p.1 = ['\\', p.1] := by decide +kernel
  have hwidths : ∀ p ∈ Text.widths, Lexeme.unescape p.1 = ['\\', p.1] := by decide
  have hwritten := Text.written_escapeUnprintable c
  generalize Text.escapeUnprintable c = cs at hwritten
  cases hwritten with
  | plain _ _ hprint => exact absurd (.inl hprint) hc
  | @letter l hl =>
      have hpair := Body.pair (g := Glyph.ofChar '\\') (e := Glyph.ofChar l) rfl h
      rwa [show Lexeme.unescape (Glyph.ofChar l).char = ['\\', l] from
        (hletters _ hl).resolve_left hc] at hpair
  | @number l width hl =>
      have hpair := Body.pair (g := Glyph.ofChar '\\') (e := Glyph.ofChar l) rfl
        (body_hexDigits width c.toNat h)
      rwa [show Lexeme.unescape (Glyph.ofChar l).char = ['\\', l] from hwidths _ hl] at hpair

theorem body_escaped (cs : List Char) :
    Body ((cs.flatMap (Text.escapeIn '"')).map Glyph.ofChar) (cs.flatMap Text.readBack) := by
  induction cs with
  | nil => exact .nil
  | cons c cs ih =>
      rw [List.flatMap_cons, List.map_append, List.flatMap_cons]
      by_cases hc : Text.isPrintable c = true ∨ c = '\n' ∨ c = '\t'
      · rw [Text.readBack_of_known hc]
        exact body_escapeIn hc ih
      · rw [Text.readBack_of_unknown hc, Text.escapeIn_of_unknown hc]
        exact body_escapeUnprintable hc ih

/-- A quoted text is read as one string, which has the text that is read back for each character. -/
theorem quotation (s : String) :
    Spells F (Glyph.ofText (Text.quoted s)) fun ts => ∃ t, ts = [t] ∧ t.kind = .string ∧
      t.text = String.ofList (s.toList.flatMap Text.readBack) := by
  have hchars : Glyph.ofText (Text.quoted s) = Glyph.ofChar '"' ::
      ((s.toList.flatMap (Text.escapeIn '"')).map Glyph.ofChar ++ [Glyph.ofChar '"']) := by
    rw [Glyph.ofText, Text.toList_quoted, List.map_cons, List.map_append]
    rfl
  have hfeed : '\n' ∉ (Text.quoted s).toList := by
    rw [Text.toList_quoted]
    refine List.not_mem_cons_of_ne_of_not_mem (by decide) fun hmem => ?_
    rcases List.mem_append.mp hmem with hmem | hmem
    · exact Text.feed_not_mem_escaped _ hmem
    · exact absurd hmem (by decide)
  refine lexeme (Glyph.countFeeds_map_ofChar hfeed) fun rest _ => ?_
  have hstring := IsLexeme.string (q := Glyph.ofChar '"') rest rfl (body_escaped s.toList)
    (rfl : (Glyph.ofChar '"').char = '"')
  rwa [← hchars] at hstring

/-- A quoted text, if its characters are printable, line feeds or tabs. -/
theorem quoted {s : String}
    (h : ∀ c ∈ s.toList, Text.isPrintable c = true ∨ c = '\n' ∨ c = '\t') :
    Spells F (Glyph.ofText (Text.quoted s))
      fun ts => ∃ t, ts = [t] ∧ t.kind = .string ∧ t.text = s := by
  have hquotation := quotation (F := F) s
  rwa [Text.readBack_eq_self_iff.mpr h, String.ofList_toList] at hquotation

/-- An operator, before a blank. -/
theorem operator (op : BinaryOp) :
    Spells Spaced (Glyph.ofText op.symbol) fun ts => ∃ t, ts = [t] ∧ t.kind = op.kind := by
  cases op with
  | equal => exact sign rfl fun rest _ => .equal rest rfl rfl
  | notEqual => exact sign rfl fun rest _ => .notEqual rest rfl rfl
  | add => exact mark "+" .plus ⟨'+', rfl, by decide⟩
  | subtract => exact mark "-" .minus ⟨'-', rfl, by decide⟩
  | multiply => exact mark "*" .star ⟨'*', rfl, by decide⟩
  | divide => exact sign rfl fun rest hrest => .slash rfl (hrest.stops rfl)

/-- The sign of an assignment, before a blank. -/
theorem assignSign :
    Spells Spaced (Glyph.ofText "=") fun ts => ∃ t, ts = [t] ∧ t.kind = .assign :=
  sign rfl fun _ hrest => .assign rfl (hrest.stops rfl)

end Spells

end HamScript
