/-
# Scalars that are written are read back

A text without line breaks is written plain, in single quotes or in double quotes, and its long
lines are broken at blanks.  Reading takes each of these forms for the text again.

For a plain scalar this goes word by word: `Flows` says what is written after the first word, and
reading follows it (`Flows.plainMore_eq`).  That a text has such words is what the conditions on
plain scalars are for: no colon and no `#` where they would end it, and no blank at either end.

`Written` sums up what a text may be written as, and `Inscribes` how a value may stand at the end of a
line for it to be read.  Whatever is written can be read (`Written.inscribes`).
-/
import HamScript.Proofs.Yaml.Quoted

namespace HamScript.Yaml

/-! ## Characters of names -/

section
variable {c d : Char}

/-- A character of names is none of those that mean something else. -/
theorem ne_of_isNameChar (hc : isNameChar c = true) (hd : isNameChar d = false) : c ≠ d := by
  rintro rfl
  rw [hc] at hd
  cases hd

theorem isWhite_of_isNameChar (h : isNameChar c = true) : isWhite c = false := by
  have hne : ∀ d, isNameChar d = false → c ≠ d := fun d => ne_of_isNameChar h
  simp only [isWhite, isBlank, isBreak, Bool.or_eq_false_iff, beq_eq_false_iff_ne]
  exact ⟨⟨hne _ (by decide), hne _ (by decide)⟩, ⟨hne _ (by decide), hne _ (by decide)⟩,
    hne _ (by decide)⟩

theorem reservedStarts_of_isNameChar (h : isNameChar c = true) :
    reservedStarts.contains c = false := by
  have hall : (reservedStarts.all fun d => !isNameChar d) = true := by decide +kernel
  rw [List.contains_eq_mem, decide_eq_false_iff_not]
  intro hmem
  exact ne_of_isNameChar h (by simpa using List.all_eq_true.mp hall c hmem) rfl

theorem isNameChar_of_isDigit (h : c.isDigit = true) : isNameChar c = true := by
  rw [isNameChar, Char.isAlphanum, h]
  simp

end

/-! ## Plain scalars -/

/-- White space between two words of a plain scalar, and what it is read as. -/
inductive Gap : (white blanks : List Char) → Prop
  | blanks {bs : List Char} : bs ≠ [] → (∀ c ∈ bs, c = ' ') → Gap bs bs
  | line : Gap ['\n', ' ', ' '] [' ']

/-- A word within a plain scalar: it holds no white space, and no colon that would end it. -/
structure IsWord (word : List Char) : Prop where
  ne_nil : word ≠ []
  whole : plainWord false word = word

/-- What follows the first word of a plain scalar, and what it is written as. -/
inductive Flows : (text written : List Char) → Prop
  | nil : Flows [] []
  | more {white blanks word text w : List Char} :
      Gap white blanks → IsWord word → word.head? ≠ some '#' → Flows text w →
      Flows (blanks ++ (word ++ text)) (white ++ (word ++ w))

theorem plainWord_append {word : List Char} (h : plainWord false word = word) {cs : List Char}
    (hcs : startsBlank cs = true) : plainWord false (word ++ cs) = word := by
  induction word with
  | nil =>
      cases cs with
      | nil => rfl
      | cons c cs =>
          have hc : isWhite c = true := hcs
          simp [plainWord, hc]
  | cons c word ih =>
      rw [plainWord] at h
      split at h
      next => cases h
      next hgoes =>
        have hword : plainWord false word = word := (List.cons.inj h).2
        have hnext : startsBlank word = false → startsBlank (word ++ cs) = false := by
          cases word with
          | nil =>
              intro hfalse
              cases hfalse
          | cons d ds => exact id
        have hgoes' : ¬ (isWhite c || c == ':' && startsBlank (word ++ cs) ||
            false && flowMarks.contains c) = true := by
          simp only [Bool.false_and, Bool.or_false, Bool.or_eq_true, Bool.and_eq_true,
            not_or, not_and, Bool.not_eq_true] at hgoes ⊢
          exact ⟨hgoes.1, fun hcolon => hnext (hgoes.2 hcolon)⟩
        rw [List.cons_append, plainWord, if_neg hgoes', ih hword]

/-- A word goes on to where one ends, if nothing in it could end it. -/
theorem plainWord_append_of_ne {word : List Char} (h : ∀ c ∈ word, isWhite c = false ∧ c ≠ ':')
    {cs : List Char} (hcs : plainWord false cs = []) : plainWord false (word ++ cs) = word := by
  induction word with
  | nil => exact hcs
  | cons c word ih =>
      obtain ⟨hwhite, hcolon⟩ := h c List.mem_cons_self
      rw [List.cons_append, plainWord, if_neg, ih fun d hd => h d (List.mem_cons_of_mem c hd)]
      simp [hwhite, hcolon]

theorem IsWord.exists_head {word : List Char} (h : IsWord word) :
    ∃ c cs, word = c :: cs ∧ isWhite c = false := by
  obtain ⟨hne, hwhole⟩ := h
  cases word with
  | nil => exact absurd rfl hne
  | cons c cs =>
      refine ⟨c, cs, rfl, ?_⟩
      rw [plainWord] at hwhole
      split at hwhole
      next => cases hwhole
      next hgoes =>
        simp only [Bool.or_eq_true, not_or, Bool.not_eq_true] at hgoes
        exact hgoes.1.1

namespace Gap

section
variable {white blanks : List Char}

theorem eq_blank_or_feed (h : Gap white blanks) : ∀ c ∈ white, c = ' ' ∨ c = '\n' := by
  cases h with
  | blanks _ hall => exact fun c hc => .inl (hall c hc)
  | line => simp

theorem isWhite_of_mem (h : Gap white blanks) : ∀ c ∈ white, isWhite c = true := by
  intro c hc
  rcases h.eq_blank_or_feed c hc with rfl | rfl <;> decide

theorem ne_nil (h : Gap white blanks) : white ≠ [] := by
  cases h with
  | blanks hne _ => exact hne
  | line => exact List.cons_ne_nil _ _

theorem any_isBreak_of_blanks {bs : List Char} (h : ∀ c ∈ bs, c = ' ') :
    bs.any isBreak = false := by
  rw [List.any_eq_false]
  intro c hc
  rw [h c hc]
  decide

theorem foldedWhite_eq (h : Gap white blanks) : foldedWhite white = blanks := by
  cases h with
  | blanks _ hall =>
      have hnone : white.filter isBreak = [] := by
        rw [List.filter_eq_nil_iff]
        exact List.any_eq_false.mp (any_isBreak_of_blanks hall)
      rw [foldedWhite, hnone]
  | line => rfl

theorem tabIndented_eq (h : Gap white blanks) (indent : Nat) :
    tabIndented indent none white = false := by
  have hnone : ∀ (ws : List Char) (column : Option Nat), (∀ c ∈ ws, c = ' ' ∨ c = '\n') →
      tabIndented indent column ws = false := by
    intro ws
    induction ws with
    | nil =>
        intro column _
        rfl
    | cons c ws ih =>
        intro column hws
        have hrest := fun d hd => hws d (List.mem_cons_of_mem c hd)
        rcases hws c List.mem_cons_self with rfl | rfl
        · exact ih _ hrest
        · exact ih _ hrest
  exact hnone white none h.eq_blank_or_feed

/-- The text after a line break is indented by two columns. -/
theorem continues (h : Gap white blanks) {indent : Nat} (hle : indent ≤ 2) (mark : Bool) :
    (!white.any isBreak || (decide (indent ≤ indentAfter white) &&
      !(indentAfter white == 0 && mark))) = true := by
  cases h with
  | blanks _ hall => simp [any_isBreak_of_blanks hall]
  | line =>
      have hindent : indentAfter ['\n', ' ', ' '] = 2 := by decide
      simp [hindent, hle]

end

end Gap

theorem Flows.startsBlank_append {text w : List Char} (h : Flows text w) (rest : List Char) :
    startsBlank (w ++ '\n' :: rest) = true := by
  cases h with
  | nil => rfl
  | more hgap _ _ _ =>
      obtain ⟨c, white, rfl⟩ := List.exists_cons_of_ne_nil hgap.ne_nil
      exact hgap.isWhite_of_mem c List.mem_cons_self

/-- The text goes on at the start of the next line with something that is no blank, or ends. -/
def StartsLine (rest : List Char) : Prop :=
  ∀ c, rest.head? = some c → isWhite c = false

theorem takeWhile_isWhite {white rest : List Char} (hwhite : ∀ c ∈ white, isWhite c = true)
    (hrest : StartsLine rest) : (white ++ rest).takeWhile isWhite = white := by
  induction white with
  | nil =>
      cases rest with
      | nil => rfl
      | cons c rest => simp [hrest c rfl]
  | cons c white ih =>
      have hc := hwhite c List.mem_cons_self
      rw [List.cons_append, List.takeWhile_cons, hc, if_pos rfl,
        ih fun d hd => hwhite d (List.mem_cons_of_mem c hd)]

/-- The words after the first one are read up to the end of the last line. -/
theorem Flows.plainMore_eq {text w rest : List Char} (h : Flows text w) (hrest : StartsLine rest)
    {indent : Nat} (hpos : 0 < indent) (hle : indent ≤ 2) {bound : Nat}
    (hbound : w.length < bound) :
    plainMore false indent bound (w ++ '\n' :: rest) = some ⟨text, w.length + 1, true⟩ := by
  induction h generalizing bound with
  | nil =>
      cases bound with
      | zero => cases hbound
      | succ bound =>
          have hfeed : ∀ c ∈ ['\n'], isWhite c = true := List.all_eq_true.mp rfl
          have hwhite : ('\n' :: rest).takeWhile isWhite = ['\n'] :=
            takeWhile_isWhite hfeed hrest
          have hstops : goesOn false indent ['\n'] rest = false := by
            have hindent : indentAfter ['\n'] = 0 := by decide
            have hbreak : (['\n'] : List Char).any isBreak = true := by decide
            have hless : ¬ indent ≤ 0 := Nat.not_le.mpr hpos
            simp [goesOn, hindent, hbreak, hless]
          have htab : tabIndented indent none ['\n'] = false := rfl
          rw [List.nil_append, plainMore, hwhite]
          dsimp only
          rw [htab, if_neg (by decide)]
          exact if_neg (Bool.eq_false_iff.mp hstops)
  | @more white blanks word text w hgap hword hhash hflows ih =>
      cases bound with
      | zero => cases hbound
      | succ bound =>
          obtain ⟨c, cs, hwordeq, hc⟩ := hword.exists_head
          have hlength : w.length < bound := by
            have hlong := List.length_pos_iff.mpr hword.ne_nil
            simp only [List.length_append] at hbound
            omega
          have hwhite : (white ++ (word ++ (w ++ '\n' :: rest))).takeWhile isWhite = white := by
            refine takeWhile_isWhite hgap.isWhite_of_mem ?_
            intro d hd
            rw [hwordeq] at hd
            exact Option.some.inj hd ▸ hc
          have hread : plainWord false (word ++ (w ++ '\n' :: rest)) = word :=
            plainWord_append hword.whole (hflows.startsBlank_append rest)
          have hgoes : goesOn false indent white (word ++ (w ++ '\n' :: rest)) = true := by
            have hhead : (word ++ (w ++ '\n' :: rest)).head? ≠ some '#' := by
              rw [hwordeq] at hhash ⊢
              exact hhash
            rw [goesOn, hread, Bool.false_or, hgap.continues hle, bne_iff_ne.mpr hhead]
            simp [hgap.ne_nil, hword.ne_nil]
          rw [List.append_assoc, List.append_assoc, plainMore, hwhite, List.drop_left]
          dsimp only
          rw [hgap.tabIndented_eq, if_neg (by decide), if_pos hgoes, hread, List.drop_left,
            ih hlength, Option.map_some, hgap.foldedWhite_eq, List.append_assoc]
          simp only [List.length_append, Nat.add_assoc]

/-- A plain scalar is read up to the end of its last line. -/
theorem plainText_eq {word text w rest : List Char} (hword : IsWord word) (h : Flows text w)
    (hrest : StartsLine rest) {indent : Nat} (hpos : 0 < indent) (hle : indent ≤ 2) :
    plainText false indent (word ++ w ++ '\n' :: rest) =
      some ⟨word ++ text, (word ++ w).length + 1, true⟩ := by
  have hread : plainWord false (word ++ (w ++ '\n' :: rest)) = word :=
    plainWord_append hword.whole (h.startsBlank_append rest)
  have hbound : w.length < (word ++ (w ++ '\n' :: rest)).length + 1 := by
    simp only [List.length_append]
    omega
  rw [List.append_assoc, plainText, hread, List.drop_left, h.plainMore_eq hrest hpos hle hbound,
    Option.map_some]
  simp only [List.length_append, Nat.add_assoc]

theorem holdsMark_cons_eq_false {afterBlank : Bool} {c : Char} {cs : List Char}
    (h : holdsMark afterBlank (c :: cs) = false) :
    (c = ':' → blankNext cs = false) ∧ (c = '#' → afterBlank = false) ∧
      holdsMark (isBlank c) cs = false := by
  simp only [holdsMark, Bool.or_eq_false_iff, Bool.and_eq_false_imp, beq_iff_eq] at h
  exact ⟨h.1.1, h.1.2, h.2⟩

theorem plainWord_cons {c : Char} {word : List Char} (hc : isWhite c = false)
    (hword : plainWord false word = word) (hcolon : word = [] → c ≠ ':') :
    plainWord false (c :: word) = c :: word := by
  have hgoes : ¬ (c = ':' ∧ startsBlank word = true) := by
    rintro ⟨rfl, hblank⟩
    cases hnil : word with
    | nil => exact hcolon hnil rfl
    | cons d ds =>
        have hne : word ≠ [] := hnil ▸ List.cons_ne_nil d ds
        obtain ⟨d', ds', rfl, hd⟩ := IsWord.exists_head ⟨hne, hword⟩
        rw [startsBlank, hd] at hblank
        cases hblank
  rw [plainWord, if_neg, hword]
  simpa [hc] using hgoes

/-- How a wrapped text divides into words: from its first character if that is no blank, and from
blanks before it. -/
structure FlowsOn (afterBlank : Bool) (text w : List Char) : Prop where
  ink : text.getLast? ≠ some ' ' → text.head? ≠ some ' ' →
    ∃ word more v, text = word ++ more ∧ w = word ++ v ∧ (word = [] → text = []) ∧
      plainWord false word = word ∧ Flows more v
  blanks : ∀ bs, (∀ c ∈ bs, c = ' ') → (afterBlank = false → bs = []) →
    (bs ++ text).getLast? ≠ some ' ' → (∀ c, (bs ++ text).head? = some c → c = ' ') →
    Flows (bs ++ text) (bs ++ w)

theorem getLast?_tail_ne {c d : Char} {cs : List Char} (h : (c :: cs).getLast? ≠ some d) :
    cs.getLast? ≠ some d := by
  cases cs with
  | nil => simp
  | cons e es => rwa [List.getLast?_cons_cons] at h

theorem Wrapped.flowsOn {afterBlank : Bool} {text w : List Char}
    (h : Wrapped (fun c => [c]) false afterBlank text w) (hinline : ∀ c ∈ text, isInline c = true)
    (hmark : holdsMark afterBlank text = false) : FlowsOn afterBlank text w := by
  induction h with
  | nil =>
      refine ⟨fun _ _ => ⟨[], [], [], rfl, rfl, fun _ => rfl, rfl, .nil⟩, ?_⟩
      intro bs hbs _ hlast _
      rw [List.append_nil] at hlast ⊢
      cases hlastbs : bs.getLast? with
      | none =>
          obtain rfl := List.getLast?_eq_none_iff.mp hlastbs
          exact .nil
      | some c =>
          obtain rfl := hbs c (List.mem_of_getLast? hlastbs)
          exact absurd hlastbs hlast
  | @char afterBlank c cs w hc _ ih =>
      have hwhite := isWhite_of_isInline (hinline c List.mem_cons_self) hc
      have hblank : isBlank c = false := (Bool.or_eq_false_iff.mp hwhite).1
      obtain ⟨hcolon, hhash, hrest⟩ := holdsMark_cons_eq_false hmark
      rw [hblank] at hrest
      have hcs := ih (fun d hd => hinline d (List.mem_cons_of_mem c hd)) hrest
      have hink : (c :: cs).getLast? ≠ some ' ' → ∃ word more v, c :: cs = c :: word ++ more ∧
          [c] ++ w = c :: word ++ v ∧ plainWord false (c :: word) = c :: word ∧ Flows more v := by
        intro hlast
        by_cases hhead : cs.head? = some ' '
        · -- the word ends here
          have hmore : Flows ([] ++ cs) ([] ++ w) := hcs.blanks [] (fun d hd => by cases hd)
            (fun _ => rfl) (getLast?_tail_ne hlast)
            fun d hd => Option.some.inj (hd.symm.trans hhead)
          have hnext : blankNext cs = true := by
            cases cs with
            | nil => rfl
            | cons d ds =>
                obtain rfl : d = ' ' := Option.some.inj hhead
                rfl
          refine ⟨[], cs, w, rfl, rfl, plainWord_cons hwhite rfl fun _ hcol => ?_, hmore⟩
          rw [hcolon hcol] at hnext
          cases hnext
        · obtain ⟨word, more, v, rfl, rfl, hnil, hword, hmore⟩ :=
            hcs.ink (getLast?_tail_ne hlast) hhead
          refine ⟨word, more, v, rfl, rfl, plainWord_cons hwhite hword fun hword hcol => ?_, hmore⟩
          have hnext := hcolon hcol
          rw [hnil hword] at hnext
          cases hnext
      refine ⟨?_, ?_⟩
      · intro hlast _
        obtain ⟨word, more, v, htext, hw, hword, hmore⟩ := hink hlast
        exact ⟨c :: word, more, v, htext, hw, fun hnil => (by cases hnil), hword, hmore⟩
      · intro bs hbs hafter hlast hhead
        have hne : bs ≠ [] := by
          rintro rfl
          exact hc (hhead c rfl)
        have hlast' : (c :: cs).getLast? ≠ some ' ' := by
          intro hlast'
          apply hlast
          rw [List.getLast?_append, hlast']
          rfl
        obtain ⟨word, more, v, htext, hw, hword, hmore⟩ := hink hlast'
        rw [htext, hw]
        refine .more (.blanks hne hbs) ⟨List.cons_ne_nil c word, hword⟩ ?_ hmore
        intro hc'
        exact hne (hafter (hhash (Option.some.inj hc')))
  | @blank afterBlank cs w _ ih =>
      have hcs := ih (fun d hd => hinline d (List.mem_cons_of_mem ' ' hd))
        (holdsMark_cons_eq_false hmark).2.2
      refine ⟨fun _ hhead => absurd rfl hhead, ?_⟩
      intro bs hbs _ hlast hhead
      rw [List.append_cons] at hlast hhead ⊢
      rw [List.append_cons bs ' ' w]
      refine hcs.blanks (bs ++ [' ']) ?_ (by simp) hlast hhead
      intro c hc
      rcases List.mem_append.mp hc with hc | hc
      · exact hbs c hc
      · exact List.mem_singleton.mp hc
  | @fold c cs w hc _ ih =>
      have hrest := (holdsMark_cons_eq_false hmark).2.2
      have hcs := ih (fun d hd => hinline d (List.mem_cons_of_mem ' ' hd)) hrest
      refine ⟨fun _ hhead => absurd rfl hhead, ?_⟩
      intro bs _ hafter hlast _
      obtain rfl := hafter rfl
      obtain ⟨word, more, v, htext, rfl, hnil, hword, hmore⟩ :=
        hcs.ink (getLast?_tail_ne hlast) fun hhead => hc (Option.some.inj hhead)
      have hne : word ≠ [] := fun hword => List.cons_ne_nil c cs (hnil hword)
      have hhash : word.head? ≠ some '#' := by
        obtain ⟨d, ds, rfl⟩ := List.exists_cons_of_ne_nil hne
        obtain rfl : c = d := (List.cons.inj htext).1
        intro hd
        cases (holdsMark_cons_eq_false hrest).2.1 (Option.some.inj hd)
      rw [htext]
      exact .more .line ⟨hne, hword⟩ hhash hmore
  | escape hescapes => cases hescapes

theorem Flows.blankNext_eq {text w : List Char} (h : Flows text w) : blankNext text = true := by
  cases h with
  | nil => rfl
  | more hgap _ _ _ =>
      cases hgap with
      | line => rfl
      | blanks hne hall =>
          obtain ⟨c, white, rfl⟩ := List.exists_cons_of_ne_nil hne
          obtain rfl := hall c List.mem_cons_self
          rfl

/-! ## Every style -/

/-- The ways in which a value stands at the end of a line, and whether it is plain. -/
inductive Inscribes : (text written : List Char) → (plain : Bool) → Prop
  | plain {c : Char} {word more w : List Char} :
      IsWord (c :: word) → reservedStarts.contains c = false →
      (c = '-' ∨ c = '?' ∨ c = ':' → word ≠ []) → Flows more w →
      Inscribes (c :: word ++ more) (c :: word ++ w) true
  | quoted {quote : Char} {w text : List Char} {ps : List Piece} :
      quote = '\'' ∨ quote = '"' → Quotes quote w ps → Folds false ps text →
      holdsMarker (w ++ [quote]) = false → Inscribes text (quote :: w ++ [quote]) false

/-- A text that fits is inscribed plain, its lines broken or not. -/
theorem inscribes_plain {text w : List Char} (h : Wrapped (fun c => [c]) false false text w)
    (hne : text ≠ []) (hinline : ∀ c ∈ text, isInline c = true) (hfits : fitsPlain text = true) :
    Inscribes text w true := by
  simp only [fitsPlain, Bool.and_eq_true, bne_iff_ne, Bool.not_eq_true'] at hfits
  obtain ⟨⟨⟨⟨hhead, hlast⟩, -⟩, hstarts⟩, hmark⟩ := hfits
  obtain ⟨word, more, v, rfl, rfl, hnil, hword, hmore⟩ := (h.flowsOn hinline hmark).ink hlast hhead
  cases word with
  | nil => exact absurd (hnil rfl) hne
  | cons c word =>
      simp only [List.cons_append, startsMark, Bool.or_eq_false_iff, Bool.and_eq_false_imp,
        Bool.or_eq_true, beq_iff_eq] at hstarts
      obtain ⟨⟨-, hreserved⟩, hblank⟩ := hstarts
      refine .plain ⟨List.cons_ne_nil c word, hword⟩ hreserved ?_ hmore
      rintro hc rfl
      have hnext := hblank (by
        rcases hc with hc | hc | hc
        · exact .inr hc
        · exact .inl (.inl hc)
        · exact .inl (.inr hc))
      rw [List.nil_append, hmore.blankNext_eq] at hnext
      cases hnext

/-- A text in quotes, its lines broken or not. -/
theorem inscribes_quoted {piece : Char → List Char} {quote : Char} {escapes : Bool}
    {text w : List Char} (hquote : quote = '\'' ∨ quote = '"')
    (hescapes : escapes = true → quote = '"') (h : Wrapped piece escapes false text w)
    (hinline : WritesInline piece text)
    (hpiece : ∀ c ∈ text, c ≠ ' ' → ∃ p : Piece, p.Shows c ∧
      ∀ w ps, Quotes quote w ps → Quotes quote (piece c ++ w) (p :: ps)) :
    Inscribes text (quote :: w ++ [quote]) false := by
  have hsolid : (quote ≠ ' ' ∧ quote ≠ '\n') ∧ isInline quote = true := by
    rcases hquote with rfl | rfl <;> decide
  obtain ⟨ps, hw, hfolds⟩ := h.exists_quotes hsolid.1 hescapes hpiece
  refine .quoted hquote hw hfolds ?_
  rw [h.holdsMarker_eq hinline]
  refine holdsMarker_append (w := [quote]) ?_ []
  intro d hd
  rw [List.mem_singleton.mp hd]
  exact hsolid.2

/-- The styles for a text without line breaks. -/
theorem Style.of_cases {text : String} (hbreak : ∀ c ∈ text.toList, isBreak c = false) :
    Style.of text = .double ∨
      text.toList.all isVisible = true ∧ meansText text = true ∧
        (Style.of text = .plain ∧ fitsPlain text.toList = true ∨ Style.of text = .single) := by
  have hfeed : text.toList.contains '\n' = false := by
    rw [List.contains_eq_mem, decide_eq_false_iff_not]
    intro hmem
    cases hbreak '\n' hmem
  rw [Style.of, hfeed]
  split
  next => exact .inl rfl
  next hvisible =>
    rw [if_neg (by decide)]
    split
    next => exact .inl rfl
    next hmeans =>
      simp only [Bool.or_eq_true, Bool.not_eq_true', not_or, Bool.not_eq_false] at hvisible hmeans
      refine .inr ⟨hvisible.1, hmeans.1, ?_⟩
      split
      next hfits => exact .inl ⟨rfl, hfits⟩
      next => exact .inr rfl

theorem ne_empty_of_meansText {text : String} (h : meansText text = true) : text.toList ≠ [] := by
  intro hnil
  obtain rfl : text = "" := String.toList_eq_nil_iff.mp hnil
  revert h
  decide +kernel

/-- What a text is written as: plain, if it means its text that way and nothing in it looks like
something else, or in quotes.  Long lines may be broken. -/
inductive Written (isText : Prop) (text : List Char) : (written : List Char) → Prop
  | plain {w : List Char} :
      isText → text ≠ [] → (∀ c ∈ text, isInline c = true) → fitsPlain text = true →
      Wrapped (fun c => [c]) false false text w → Written isText text w
  | single {w : List Char} :
      (∀ c ∈ text, isInline c = true) → Wrapped singlePiece false false text w →
      Written isText text ('\'' :: w ++ ['\''])
  | double {w : List Char} :
      Wrapped doublePiece true false text w → Written isText text ('"' :: w ++ ['"'])

theorem InLines.quoted {quote : Char} {w : List Char} (h : InLines w)
    (hquote : isInline quote = true) : InLines (quote :: w ++ [quote]) :=
  .append (.cons (.inl hquote) h) (.cons (.inl hquote) .nil)

/-- What is written can be read, and stands within lines.  Where it stands plain, it means its
text. -/
theorem Written.inscribes {isText : Prop} {text w : List Char} (h : Written isText text w) :
    InLines w ∧ ∃ plain, Inscribes text w plain ∧ (plain = true → isText) := by
  cases h with
  | plain hmeans hne hinline hfits hwrapped =>
      have hchars : WritesInline (fun c => [c]) text := fun c hc d hd =>
        List.mem_singleton.mp hd ▸ hinline c hc
      exact ⟨hwrapped.inLines hchars, true, inscribes_plain hwrapped hne hinline hfits,
        fun _ => hmeans⟩
  | single hinline hwrapped =>
      have hchars := writesInline_single hinline
      refine ⟨(hwrapped.inLines hchars).quoted (by decide), false, ?_,
        fun hplain => by cases hplain⟩
      exact inscribes_quoted (.inl rfl) (fun hescapes => (by cases hescapes)) hwrapped hchars
        fun c hc hne => exists_singlePiece (hinline c hc) hne
  | double hwrapped =>
      have hchars := writesInline_double text
      refine ⟨(hwrapped.inLines hchars).quoted (by decide), false, ?_,
        fun hplain => by cases hplain⟩
      exact inscribes_quoted (.inr rfl) (fun _ => rfl) hwrapped hchars
        fun c _ hc => exists_doublePiece hc

/-- A text without line breaks is written in the style that is chosen for it. -/
theorem written_writeScalar {text : String} (column : Nat)
    (hbreak : ∀ c ∈ text.toList, isBreak c = false) (hmark : text.toList.head? ≠ some '\uFEFF') :
    Style.of text ≠ .literal ∧
      Written (Meaning.ofPlain text = .str) text.toList (writeScalar column text) := by
  rw [writeScalar]
  rcases Style.of_cases hbreak with hstyle | ⟨hvisible, hmeans, hstyle⟩
  · have hbody : doubleBody (column + 1) text.toList =
        broken doublePiece true (column + 1) false false text.toList := if_neg hmark
    rw [hstyle]
    dsimp only
    rw [hbody]
    exact ⟨by decide, .double
      (wrapped_broken doublePiece true (column + 1) false text.toList hbreak)⟩
  have hinline : ∀ c ∈ text.toList, isInline c = true := fun c hc =>
    isInline_iff.mpr ⟨List.all_eq_true.mp hvisible c hc, hbreak c hc⟩
  rcases hstyle with ⟨hstyle, hfits⟩ | hstyle
  · have hstr : Meaning.ofPlain text = .str := by
      simp only [meansText, Bool.and_eq_true, beq_iff_eq] at hmeans
      exact hmeans.1
    rw [hstyle]
    exact ⟨by decide, .plain hstr (ne_empty_of_meansText hmeans) hinline hfits
      (wrapped_broken (fun c => [c]) false column false text.toList hbreak)⟩
  · rw [hstyle]
    exact ⟨by decide, .single hinline
      (wrapped_broken singlePiece false (column + 1) false text.toList hbreak)⟩

end HamScript.Yaml
