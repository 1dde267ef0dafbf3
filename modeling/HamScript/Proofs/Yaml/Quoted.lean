/-
# Long lines and quotes

A long line is broken at a blank when it is written, and the break is folded to a blank when it is
read.  The writer counts columns to find out where a line is to be broken; nothing else depends on
them.  `Wrapped` forgets the columns and says what may become of a text, one clause for each thing
that may happen to the next character:

    a character      the way it is written in the style
    a blank          itself
    a single blank   a line break and an indentation
    two blanks       the same, the second one escaped, in double quotes only

A blank after a blank is never broken, which is why reading loses none: before a line break there is
no blank that folding would take away.
-/
import HamScript.Yaml.Written

namespace HamScript.Yaml

/-! ## Long lines -/

/-- A text and what it may be written as, by `piece` for each character.  The flag says whether a
blank has just been written. -/
inductive Wrapped (piece : Char → List Char) (escapes : Bool) :
    (afterBlank : Bool) → (text written : List Char) → Prop
  | nil {afterBlank : Bool} : Wrapped piece escapes afterBlank [] []
  | char {afterBlank : Bool} {c : Char} {cs w : List Char} :
      c ≠ ' ' → Wrapped piece escapes false cs w →
      Wrapped piece escapes afterBlank (c :: cs) (piece c ++ w)
  | blank {afterBlank : Bool} {cs w : List Char} :
      Wrapped piece escapes true cs w → Wrapped piece escapes afterBlank (' ' :: cs) (' ' :: w)
  | fold {c : Char} {cs w : List Char} :
      c ≠ ' ' → Wrapped piece escapes true (c :: cs) w →
      Wrapped piece escapes false (' ' :: c :: cs) ('\n' :: ' ' :: ' ' :: w)
  | escape {cs w : List Char} :
      escapes = true → Wrapped piece escapes true cs w →
      Wrapped piece escapes false (' ' :: ' ' :: cs) ('\n' :: ' ' :: ' ' :: '\\' :: ' ' :: w)

/-- After a blank no line is broken. -/
theorem broken_blank (piece : Char → List Char) (escapes : Bool) (column : Nat) (cs : List Char) :
    broken piece escapes column true false (' ' :: cs) =
      ' ' :: broken piece escapes (column + 1) true false cs := by
  rw [broken]
  simp

/-- Breaking long lines does to a text what it may do.  Where nothing is escaped, the text has no
line breaks of its own. -/
theorem wrapped_broken (piece : Char → List Char) (escapes : Bool) :
    ∀ (column : Nat) (afterBlank : Bool) (cs : List Char),
      (∀ c ∈ cs, isBreak c = false) →
      Wrapped piece escapes afterBlank cs (broken piece escapes column afterBlank false cs)
  | _, _, [], _ => .nil
  | column, afterBlank, c :: cs, h => by
      have hcs : ∀ c ∈ cs, isBreak c = false := fun d hd => h d (List.mem_cons_of_mem c hd)
      rw [broken]
      by_cases hc : c = ' '
      · subst hc
        rw [if_pos rfl]
        dsimp only
        split
        next hfold =>
          simp only [Bool.and_eq_true, Bool.not_eq_true', Bool.or_eq_true, bne_iff_ne] at hfold
          obtain ⟨⟨⟨rfl, -⟩, hsome⟩, hescapes⟩ := hfold
          cases cs with
          | nil => cases hsome
          | cons d ds =>
              have hds : ∀ c ∈ ds, isBreak c = false :=
                fun c hc => hcs c (List.mem_cons_of_mem d hc)
              by_cases hd : d = ' '
              · subst hd
                rw [List.head?_cons, if_pos rfl, broken_blank]
                have hescapes : escapes = true := hescapes.resolve_right fun hne => hne rfl
                exact .escape hescapes (wrapped_broken piece escapes _ true ds hds)
              · rw [List.head?_cons, if_neg fun h => hd (Option.some.inj h)]
                exact .fold hd (wrapped_broken piece escapes _ true (d :: ds) hcs)
        next => exact .blank (wrapped_broken piece escapes _ true cs hcs)
      · rw [if_neg hc, h c List.mem_cons_self]
        exact .char hc (wrapped_broken piece escapes _ false cs hcs)

/-! ## Folding -/

/-- The piece stands for the character, which folding leaves as it is. -/
inductive Piece.Shows : Piece → Char → Prop
  | raw {c : Char} : isWhite c = false → Shows (.raw c) c
  | made {c : Char} : Shows (.made c) c

section
variable {p : Piece} {c : Char}

theorem foldPieces_shows (h : p.Shows c) (blanks : List Char) (ps : List Piece) :
    foldPieces blanks (p :: ps) = blanks ++ c :: foldPieces [] ps := by
  cases h with
  | raw hc =>
      obtain ⟨hblank, hbreak⟩ := Bool.or_eq_false_iff.mp hc
      simp [foldPieces, hblank, hbreak]
  | made => rw [foldPieces]

theorem foldAfterBreaks_shows (h : p.Shows c) (breaks : Breaks) (ps : List Piece) :
    foldAfterBreaks breaks (p :: ps) = breaks.text ++ c :: foldPieces [] ps := by
  cases h with
  | raw hc =>
      obtain ⟨hblank, hbreak⟩ := Bool.or_eq_false_iff.mp hc
      simp [foldAfterBreaks, hblank, hbreak]
  | made => rw [foldAfterBreaks]

end

/-- Folding the pieces gives the text, within a line and, unless the text starts with a blank, at
the start of one. -/
structure Folds (afterBlank : Bool) (pieces : List Piece) (text : List Char) : Prop where
  inLine : ∀ blanks, (afterBlank = false → blanks = []) →
    foldPieces blanks pieces = blanks ++ text
  atLine : ∀ c, text.head? = some c → c ≠ ' ' →
    ∀ breaks, foldAfterBreaks breaks pieces = breaks.text ++ text

/-! ## Between quotes -/

/-- What is written between quotes, and the pieces that it consists of. -/
inductive Quotes (quote : Char) : List Char → List Piece → Prop
  | nil : Quotes quote [] []
  | raw {c : Char} {w : List Char} {ps : List Piece} :
      c ≠ quote → (quote = '"' → c ≠ '\\') → Quotes quote w ps →
      Quotes quote (c :: w) (.raw c :: ps)
  | doubled {w : List Char} {ps : List Piece} :
      quote = '\'' → Quotes quote w ps → Quotes quote ('\'' :: '\'' :: w) (.made '\'' :: ps)
  | escaped {c : Char} {v w : List Char} {ps : List Piece} :
      quote = '"' → (∀ rest, escape? (v ++ rest) = some (.made c, v.length)) → Quotes quote w ps →
      Quotes quote ('\\' :: (v ++ w)) (.made c :: ps)

theorem Quotes.singlePieces_eq {w : List Char} {ps : List Piece} (h : Quotes '\'' w ps)
    (rest : List Char) :
    singlePieces (w ++ '\'' :: '\n' :: rest) = some (ps, w.length + 1) := by
  induction h with
  | nil => rfl
  | @raw c w ps hc _ _ ih =>
      rw [List.cons_append, singlePieces]
      · rw [if_neg hc, ih]
        rfl
      · intro cs hcs
        exact absurd hcs hc
  | doubled _ _ ih =>
      rw [List.cons_append, List.cons_append, singlePieces, ih]
      rfl
  | escaped hquote => cases hquote

theorem Quotes.doublePieces_eq {w : List Char} {ps : List Piece} (h : Quotes '"' w ps)
    (rest : List Char) {bound : Nat} (hbound : w.length < bound) :
    doublePieces bound (w ++ '"' :: rest) = some (ps, w.length + 1) := by
  induction h generalizing bound with
  | nil =>
      cases bound with
      | zero => cases hbound
      | succ bound => rfl
  | @raw c w ps hc hslash _ ih =>
      cases bound with
      | zero => cases hbound
      | succ bound =>
          rw [List.cons_append, doublePieces, if_neg hc, if_neg (hslash rfl),
            ih (Nat.lt_of_succ_lt_succ hbound)]
          rfl
  | doubled hquote => cases hquote
  | @escaped c v w ps _ hescape _ ih =>
      cases bound with
      | zero => cases hbound
      | succ bound =>
          have hlength : w.length < bound := by
            rw [List.length_cons, List.length_append] at hbound
            omega
          rw [List.cons_append, List.append_assoc, doublePieces, if_neg (by decide), if_pos rfl,
            hescape]
          simp only [Option.bind_eq_bind, Option.bind_some, List.drop_left, ih hlength]
          rw [List.length_cons, List.length_append]
          rfl

/-- What a text is wrapped into is read between quotes and folded to the text. -/
theorem Wrapped.exists_quotes {piece : Char → List Char} {quote : Char} {escapes : Bool}
    (hquote : quote ≠ ' ' ∧ quote ≠ '\n') (hescapes : escapes = true → quote = '"')
    {afterBlank : Bool} {text w : List Char} (h : Wrapped piece escapes afterBlank text w)
    (hpiece : ∀ c ∈ text, c ≠ ' ' → ∃ p : Piece, p.Shows c ∧
      ∀ w ps, Quotes quote w ps → Quotes quote (piece c ++ w) (p :: ps)) :
    ∃ ps, Quotes quote w ps ∧ Folds afterBlank ps text := by
  have hraw : ∀ c w ps, c = ' ' ∨ c = '\n' → Quotes quote w ps →
      Quotes quote (c :: w) (.raw c :: ps) := by
    intro c w ps hc hw
    refine .raw ?_ ?_ hw
    · rcases hc with rfl | rfl
      · exact hquote.1.symm
      · exact hquote.2.symm
    · rintro - rfl
      rcases hc with hc | hc <;> cases hc
  -- a line break and the indentation after it
  have hline : ∀ w ps, Quotes quote w ps → Quotes quote ('\n' :: ' ' :: ' ' :: w)
      (.raw '\n' :: .raw ' ' :: .raw ' ' :: ps) := fun w ps hw =>
    hraw _ _ _ (.inr rfl) (hraw _ _ _ (.inl rfl) (hraw _ _ _ (.inl rfl) hw))
  induction h with
  | nil =>
      refine ⟨[], .nil, ?_, ?_⟩
      · intro blanks _
        rw [foldPieces, List.append_nil]
      · intro c hc
        cases hc
  | @char afterBlank c cs w hc _ ih =>
      obtain ⟨ps, hw, hfolds⟩ := ih fun d hd => hpiece d (List.mem_cons_of_mem c hd)
      obtain ⟨p, hp, hquotes⟩ := hpiece c List.mem_cons_self hc
      have hcs : foldPieces [] ps = cs := hfolds.inLine [] fun _ => rfl
      refine ⟨p :: ps, hquotes w ps hw, ?_, ?_⟩
      · intro blanks _
        rw [foldPieces_shows hp, hcs]
      · intro d _ _ breaks
        rw [foldAfterBreaks_shows hp, hcs]
  | @blank afterBlank cs w _ ih =>
      obtain ⟨ps, hw, hfolds⟩ := ih fun d hd => hpiece d (List.mem_cons_of_mem ' ' hd)
      refine ⟨.raw ' ' :: ps, hraw _ _ _ (.inl rfl) hw, ?_, ?_⟩
      · intro blanks _
        have hcs := hfolds.inLine (blanks ++ [' ']) (by simp)
        rw [foldPieces, if_neg (by decide), if_pos (by decide), hcs, List.append_assoc]
        rfl
      · intro c hc hne
        exact absurd (Option.some.inj hc).symm hne
  | @fold c cs w hc _ ih =>
      obtain ⟨ps, hw, hfolds⟩ := ih fun d hd => hpiece d (List.mem_cons_of_mem ' ' hd)
      have hcs := hfolds.atLine c rfl hc (.folded ['\n'])
      refine ⟨_, hline w ps hw, ?_, ?_⟩
      · intro blanks hblanks
        obtain rfl := hblanks rfl
        exact hcs
      · intro d hd hne
        exact absurd (Option.some.inj hd).symm hne
  | @escape cs w hesc _ ih =>
      obtain ⟨ps, hw, hfolds⟩ := ih fun d hd =>
        hpiece d (List.mem_cons_of_mem ' ' (List.mem_cons_of_mem ' ' hd))
      have hcs : foldPieces [] ps = cs := hfolds.inLine [] (by simp)
      have hblank : Quotes quote ('\\' :: ([' '] ++ w)) (.made ' ' :: ps) :=
        .escaped (hescapes hesc) (fun rest => rfl) hw
      refine ⟨_, hline _ _ hblank, ?_, ?_⟩
      · intro blanks hblanks
        obtain rfl := hblanks rfl
        have hfold : foldAfterBreaks (.folded ['\n']) (.made ' ' :: ps) = [' '] ++ ' ' :: cs := by
          rw [foldAfterBreaks_shows .made, hcs]
          rfl
        exact hfold
      · intro d hd hne
        exact absurd (Option.some.inj hd).symm hne

/-! ## Characters within a line -/

/-- A character that stands in a document as it is, within a line. -/
def isInline (c : Char) : Bool :=
  isVisible c && !isBreak c

theorem isInline_iff {c : Char} : isInline c = true ↔ isVisible c = true ∧ isBreak c = false := by
  simp [isInline]

theorem isAllowed_of_isVisible {c : Char} (h : isVisible c = true) : isAllowed c = true := by
  simp only [isVisible, isAllowed, Bool.or_eq_true, Bool.and_eq_true, beq_iff_eq, bne_iff_ne,
    decide_eq_true_eq] at h ⊢
  omega

theorem isInline_blank : isInline ' ' = true := by decide

/-- A text that consists of lines: of line feeds, and of characters within lines. -/
def InLines (w : List Char) : Prop :=
  ∀ d ∈ w, isInline d = true ∨ d = '\n'

namespace InLines

theorem nil : InLines [] := fun _ hd => by cases hd

theorem cons {c : Char} {w : List Char} (hc : isInline c = true ∨ c = '\n') (hw : InLines w) :
    InLines (c :: w) := by
  intro d hd
  rcases List.mem_cons.mp hd with rfl | hd
  · exact hc
  · exact hw d hd

theorem append {v w : List Char} (hv : InLines v) (hw : InLines w) : InLines (v ++ w) := by
  intro d hd
  exact (List.mem_append.mp hd).elim (hv d) (hw d)

theorem of_isInline {w : List Char} (h : ∀ d ∈ w, isInline d = true) : InLines w := fun d hd =>
  .inl (h d hd)

end InLines

/-- The only blank within a line is the space. -/
theorem isWhite_of_isInline {c : Char} (h : isInline c = true) (hc : c ≠ ' ') :
    isWhite c = false := by
  obtain ⟨hvisible, hbreak⟩ := isInline_iff.mp h
  have htab : c ≠ '\t' := by
    rintro rfl
    revert hvisible
    decide
  simp [isWhite, isBlank, hbreak, hc, htab]

/-! ## Escapes -/

/-- The letter of an escape stands for the character again. -/
theorem escapeLetter?_eq_some {c l : Char} (h : escapeLetter? c = some l) :
    isInline l = true ∧ escapeLetters.lookup l = some c := by
  have hpairs : ∃ pairs : List (Char × Char), escapeLetter? c = pairs.lookup c ∧
      pairs.all (fun p => isInline p.2 && escapeLetters.lookup p.2 == some p.1) = true :=
    ⟨_, rfl, by decide +kernel⟩
  obtain ⟨pairs, hlookup, hall⟩ := hpairs
  obtain ⟨l₁, l₂, rfl, -⟩ := List.lookup_eq_some_iff.mp (hlookup.symm.trans h)
  simpa using List.all_eq_true.mp hall (c, l) (List.mem_append_right l₁ List.mem_cons_self)

/-- The number is written in so many hexadecimal digits. -/
def FitsDigits : (digits n : Nat) → Prop
  | 0, n => n = 0
  | d + 1, n => FitsDigits d (n / 16)

theorem length_hexOf (d n : Nat) : (hexOf d n).length = d := by
  induction d generalizing n with
  | zero => rfl
  | succ d ih => rw [hexOf, List.length_append, ih, List.length_singleton]

theorem digitIn?_hexDigit (n : Nat) :
    isInline (Nat.digitChar (n % 16)).toUpper = true ∧
      Decimal.digitIn? 16 (Nat.digitChar (n % 16)).toUpper = some (n % 16) := by
  have hall : ∀ k < 16, isInline (Nat.digitChar k).toUpper = true ∧
      Decimal.digitIn? 16 (Nat.digitChar k).toUpper = some k := by decide
  exact hall (n % 16) (Nat.mod_lt n (by decide))

theorem isInline_of_mem_hexOf {d n : Nat} : ∀ c ∈ hexOf d n, isInline c = true := by
  induction d generalizing n with
  | zero =>
      intro c hc
      cases hc
  | succ d ih =>
      intro c hc
      rcases List.mem_append.mp hc with hc | hc
      · exact ih c hc
      · obtain rfl := List.mem_singleton.mp hc
        exact (digitIn?_hexDigit n).1

theorem foldlM_hexOf {d n : Nat} (h : FitsDigits d n) :
    (hexOf d n).foldlM (fun v c => (Decimal.digitIn? 16 c).map (16 * v + ·)) 0 = some n := by
  induction d generalizing n with
  | zero =>
      obtain rfl : n = 0 := h
      rfl
  | succ d ih =>
      rw [hexOf, List.foldlM_append, ih h]
      simp only [Option.bind_eq_bind, Option.bind_some, List.foldlM_cons, List.foldlM_nil,
        (digitIn?_hexDigit n).2, Option.map_some, Option.pure_def, Nat.div_add_mod]

/-- A character that is escaped by its number. -/
theorem numberedChar?_hexOf {d : Nat} {c : Char} (h : FitsDigits (d + 1) c.toNat) :
    numberedChar? (hexOf (d + 1) c.toNat) = some c := by
  have hnatural : Decimal.naturalIn? 16 (hexOf (d + 1) c.toNat) = some c.toNat := by
    rw [← foldlM_hexOf h]
    cases hdigits : hexOf (d + 1) c.toNat with
    | nil => cases hdigits ▸ length_hexOf (d + 1) c.toNat
    | cons a as => rfl
  have hvalid : c.toNat.isValidChar := c.valid
  simp [numberedChar?, hnatural, hvalid]

theorem escape?_number {l c : Char} {d : Nat} (hletter : escapeLetters.lookup l = none)
    (hbreak : isBreak l = false) (hdigits : escapeDigits l = some (d + 1))
    (hfits : FitsDigits (d + 1) c.toNat) (rest : List Char) :
    escape? (l :: hexOf (d + 1) c.toNat ++ rest) =
      some (.made c, (l :: hexOf (d + 1) c.toNat).length) := by
  have hlength := length_hexOf (d + 1) c.toNat
  have henough : ¬ (hexOf (d + 1) c.toNat ++ rest).length < d + 1 := by
    rw [List.length_append, hlength]
    omega
  rw [List.cons_append, escape?, hbreak, hletter, if_neg (by decide)]
  dsimp only
  rw [hdigits, Option.bind_eq_bind, Option.bind_some, if_neg henough, List.take_left' hlength,
    numberedChar?_hexOf hfits, List.length_cons, hlength]
  rfl

/-- An escape stands for its character, whatever follows it. -/
theorem exists_escaped (c : Char) :
    ∃ v, escaped c = '\\' :: v ∧ (∀ d ∈ v, isInline d = true) ∧
      ∀ rest, escape? (v ++ rest) = some (.made c, v.length) := by
  cases hletter : escapeLetter? c with
  | some l =>
      obtain ⟨hinline, hlookup⟩ := escapeLetter?_eq_some hletter
      refine ⟨[l], by rw [escaped, hletter], by simpa using hinline, ?_⟩
      intro rest
      simp [escape?, (isInline_iff.mp hinline).2, hlookup]
  | none =>
      have hnumber : ∀ l d, isInline l = true → escapeLetters.lookup l = none →
          escapeDigits l = some (d + 1) → FitsDigits (d + 1) c.toNat →
          (∀ x ∈ l :: hexOf (d + 1) c.toNat, isInline x = true) ∧
          ∀ rest, escape? (l :: hexOf (d + 1) c.toNat ++ rest) =
            some (.made c, (l :: hexOf (d + 1) c.toNat).length) := by
        intro l d hinline hl hdigits hfits
        refine ⟨?_, escape?_number hl (isInline_iff.mp hinline).2 hdigits hfits⟩
        intro x hx
        rcases List.mem_cons.mp hx with rfl | hx
        · exact hinline
        · exact isInline_of_mem_hexOf x hx
      rw [escaped, hletter]
      dsimp only
      split
      next hle =>
        refine ⟨_, rfl, hnumber 'x' 1 (by decide) (by decide) rfl ?_⟩
        simp only [FitsDigits]
        omega
      next =>
        split
        next hle =>
          refine ⟨_, rfl, hnumber 'u' 3 (by decide) (by decide) rfl ?_⟩
          simp only [FitsDigits]
          omega
        next =>
          refine ⟨_, rfl, hnumber 'U' 7 (by decide) (by decide) rfl ?_⟩
          have hvalid : c.toNat < 0xD800 ∨ 0xDFFF < c.toNat ∧ c.toNat < 0x110000 := c.valid
          simp only [FitsDigits]
          omega

/-! ## Quoted scalars -/

/-- Every character is written within a line. -/
def WritesInline (piece : Char → List Char) (text : List Char) : Prop :=
  ∀ c ∈ text, ∀ d ∈ piece c, isInline d = true

/-- What a text is wrapped into consists of lines. -/
theorem Wrapped.inLines {piece : Char → List Char} {escapes afterBlank : Bool}
    {text w : List Char} (h : Wrapped piece escapes afterBlank text w)
    (hpiece : WritesInline piece text) : InLines w := by
  have hline : ∀ {w}, InLines w → InLines ('\n' :: ' ' :: ' ' :: w) := fun hw =>
    .cons (.inr rfl) (.cons (.inl isInline_blank) (.cons (.inl isInline_blank) hw))
  induction h with
  | nil => exact .nil
  | @char _ c cs w _ _ ih =>
      have hc : InLines (piece c) := .of_isInline (hpiece c List.mem_cons_self)
      exact hc.append (ih fun c' hc' => hpiece c' (List.mem_cons_of_mem c hc'))
  | blank _ ih =>
      exact .cons (.inl isInline_blank) (ih fun c hc => hpiece c (List.mem_cons_of_mem ' ' hc))
  | fold _ _ ih => exact hline (ih fun c hc => hpiece c (List.mem_cons_of_mem ' ' hc))
  | @escape cs w _ _ ih =>
      have hcs := ih fun c hc => hpiece c (List.mem_cons_of_mem ' ' (List.mem_cons_of_mem ' ' hc))
      exact hline (.cons (.inl (by decide)) (.cons (.inl isInline_blank) hcs))

theorem holdsMarker_append {w : List Char} (h : ∀ d ∈ w, isInline d = true) (cs : List Char) :
    holdsMarker (w ++ cs) = holdsMarker cs := by
  induction w with
  | nil => rfl
  | cons d w ih =>
      have hd := (isInline_iff.mp (h d List.mem_cons_self)).2
      rw [List.cons_append, holdsMarker, hd, ih fun c hc => h c (List.mem_cons_of_mem d hc)]
      rfl

/-- A line that starts with an indentation does not start with a mark. -/
theorem holdsMarker_line (cs : List Char) :
    holdsMarker ('\n' :: ' ' :: ' ' :: cs) = holdsMarker cs := by
  have hmark : ∀ c, c ≠ ' ' → startsMarker c (' ' :: ' ' :: cs) = false := by
    intro c hc
    simp [startsMarker, hc.symm]
  rw [holdsMarker, hmark '-' (by decide), hmark '.' (by decide), Bool.or_self, Bool.and_false,
    Bool.false_or]
  exact holdsMarker_append (w := [' ', ' ']) (List.all_eq_true.mp rfl) cs

theorem Wrapped.holdsMarker_eq {piece : Char → List Char} {escapes afterBlank : Bool}
    {text w : List Char} (h : Wrapped piece escapes afterBlank text w)
    (hpiece : WritesInline piece text) (cs : List Char) :
    holdsMarker (w ++ cs) = holdsMarker cs := by
  induction h with
  | nil => rfl
  | @char _ c _ w _ _ ih =>
      rw [List.append_assoc, holdsMarker_append (hpiece c List.mem_cons_self)]
      exact ih fun c' hc' => hpiece c' (List.mem_cons_of_mem c hc')
  | @blank _ _ w _ ih =>
      rw [← List.singleton_append, List.append_assoc, holdsMarker_append (w := [' '])
        (List.all_eq_true.mp rfl)]
      exact ih fun c hc => hpiece c (List.mem_cons_of_mem ' ' hc)
  | fold _ _ ih =>
      refine (holdsMarker_line _).trans ?_
      exact ih fun c hc => hpiece c (List.mem_cons_of_mem ' ' hc)
  | escape _ _ ih =>
      refine (holdsMarker_line _).trans ?_
      refine (holdsMarker_append (w := ['\\', ' ']) (List.all_eq_true.mp rfl) _).trans ?_
      exact ih fun c hc => hpiece c (List.mem_cons_of_mem ' ' (List.mem_cons_of_mem ' ' hc))

theorem exists_singlePiece {c : Char} (h : isInline c = true) (hc : c ≠ ' ') :
    ∃ p : Piece, p.Shows c ∧
      ∀ w ps, Quotes '\'' w ps → Quotes '\'' (singlePiece c ++ w) (p :: ps) := by
  rw [singlePiece]
  split
  next hquote =>
    subst hquote
    exact ⟨.made '\'', .made, fun w ps hw => .doubled rfl hw⟩
  next hquote =>
    refine ⟨.raw c, .raw (isWhite_of_isInline h hc), fun w ps hw => .raw hquote ?_ hw⟩
    intro hdouble
    cases hdouble

theorem exists_doublePiece {c : Char} (hc : c ≠ ' ') :
    ∃ p : Piece, p.Shows c ∧
      ∀ w ps, Quotes '"' w ps → Quotes '"' (doublePiece c ++ w) (p :: ps) := by
  rw [doublePiece]
  split
  next h =>
    simp only [Bool.and_eq_true, Bool.not_eq_true', bne_iff_ne] at h
    obtain ⟨⟨⟨hvisible, hbreak⟩, hquote⟩, hslash⟩ := h
    have hwhite := isWhite_of_isInline (isInline_iff.mpr ⟨hvisible, hbreak⟩) hc
    exact ⟨.raw c, .raw hwhite, fun w ps hw => .raw hquote (fun _ => hslash) hw⟩
  next =>
    obtain ⟨v, hv, -, hescape⟩ := exists_escaped c
    rw [hv]
    exact ⟨.made c, .made, fun w ps hw => .escaped rfl hescape hw⟩

theorem writesInline_single {text : List Char} (h : ∀ c ∈ text, isInline c = true) :
    WritesInline singlePiece text := by
  intro c hc d hd
  rw [singlePiece] at hd
  split at hd
  next =>
    have hd' : d = '\'' := by simpa using hd
    rw [hd']
    decide
  next => exact List.mem_singleton.mp hd ▸ h c hc

theorem isInline_of_mem_escaped {c d : Char} (h : d ∈ escaped c) : isInline d = true := by
  obtain ⟨v, hv, hinline, -⟩ := exists_escaped c
  rw [hv] at h
  rcases List.mem_cons.mp h with rfl | h
  · decide
  · exact hinline d h

theorem writesInline_double (text : List Char) : WritesInline doublePiece text := by
  intro c _ d hd
  rw [doublePiece] at hd
  split at hd
  next h =>
    simp only [Bool.and_eq_true, Bool.not_eq_true'] at h
    rw [List.mem_singleton.mp hd]
    exact isInline_iff.mpr h.1.1
  next => exact isInline_of_mem_escaped hd

/-- A scalar in quotes, up to the end of its line. -/
theorem quotedText_eq {quote : Char} {w text rest : List Char} {ps : List Piece}
    (hquote : quote = '\'' ∨ quote = '"') (hw : Quotes quote w ps) (hfolds : Folds false ps text)
    (hmarker : holdsMarker (w ++ [quote]) = false) :
    quotedText (quote :: (w ++ quote :: '\n' :: rest)) = some (text, w.length + 2) := by
  have htext : foldPieces [] ps = text := hfolds.inLine [] fun _ => rfl
  have htake : (w ++ quote :: '\n' :: rest).take (w.length + 1) = w ++ [quote] := by
    rw [List.append_cons, List.take_left' (by simp)]
  rw [quotedText]
  rcases hquote with rfl | rfl
  · rw [if_pos rfl, hw.singlePieces_eq rest]
    simp only [Option.bind_eq_bind, Option.bind_some, htake, hmarker, htext]
    rfl
  · rw [if_neg (by decide), hw.doublePieces_eq _ (by simp)]
    simp only [Option.bind_eq_bind, Option.bind_some, htake, hmarker, htext]
    rfl

end HamScript.Yaml
