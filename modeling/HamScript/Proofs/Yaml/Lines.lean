/-
# The tokens of a mapping that stands line by line

A mapping is written with one entry on each line, its key in the first column:

    name: demo
    version: "1.0"

Where the first key is met, the mapping is not known yet: the key waits in the queue until the colon
after it is read, and only then does the start of the mapping go in front of it.  At the end of the
text the mapping is closed.

Proved here is what `Stream.peek?` gives at each of these places.  A stream is `Ready` where a line
is about to start and no token is waiting, and `Settled` where no token waits to be a key.
-/
import HamScript.Proofs.Yaml.Scalars
import HamScript.Yaml.Document

namespace HamScript.Yaml

/-! ## Places -/

namespace Cursor

theorem skip_add (c : Cursor) (m n : Nat) : c.skip (m + n) = (c.skip m).skip n := by
  induction m generalizing c with
  | zero => rw [Nat.zero_add, skip]
  | succ m ih =>
      rw [Nat.succ_add, skip, skip]
      cases hrest : c.rest with
      | nil =>
          dsimp only
          cases n with
          | zero => rfl
          | succ n => rw [skip, hrest]
      | cons d ds =>
          dsimp only
          split
          · exact ih _
          · exact ih _

/-- Passing over characters of one line. -/
theorem skip_inline {w rest : List Char} (hw : ∀ d ∈ w, isBreak d = false) (i l k : Nat) :
    (⟨w ++ rest, i, l, k⟩ : Cursor).skip w.length = ⟨rest, i + w.length, l, k + w.length⟩ := by
  induction w generalizing i k with
  | nil => rfl
  | cons d w ih =>
      rw [List.cons_append, List.length_cons, skip]
      dsimp only
      rw [hw d List.mem_cons_self, if_neg (by decide),
        ih fun e he => hw e (List.mem_cons_of_mem d he)]
      simp only [Nat.add_assoc, Nat.add_comm 1]

/-- Passing over any characters. -/
theorem rest_skip (w rest : List Char) (i l k : Nat) :
    ((⟨w ++ rest, i, l, k⟩ : Cursor).skip w.length).rest = rest := by
  induction w generalizing i l k with
  | nil => rfl
  | cons d w ih =>
      rw [List.cons_append, List.length_cons, skip]
      dsimp only
      split
      · exact ih _ _ _
      · exact ih _ _ _

/-- After a line break comes the first column. -/
theorem column_skip_feed {c : Cursor} {rest : List Char} (h : c.rest = '\n' :: rest) :
    c.skip 1 = ⟨rest, c.index + 1, c.line + 1, 0⟩ := by
  rw [skip, h]
  rfl

end Cursor

namespace Stream

/-! ## Between lines -/

/-- The stream is at the start of the line that the text goes on with, or at the line break before
it, and no token is waiting. -/
structure Ready (columns : List Nat) (rest : List Char) (s : Stream) : Prop where
  columns_eq : s.columns = columns
  candidate_eq : s.candidate = none
  outer_eq : s.outer = []
  queue_eq : s.queue = []
  place : s.cursor.rest = rest ∧ s.cursor.column = 0 ∧ s.keyAllowed = true ∨
    s.cursor.rest = '\n' :: rest

/-- The text goes on with something that is no part of a gap, or ends. -/
def StartsToken (rest : List Char) : Prop :=
  ∀ c, rest.head? = some c → isWhite c = false ∧ c ≠ '#'

theorem gapLength_token {rest : List Char} (h : StartsToken rest) (flow tabs : Bool) :
    gapLength flow tabs false rest = 0 := by
  cases rest with
  | nil => rfl
  | cons c cs =>
      obtain ⟨hwhite, hhash⟩ := h c rfl
      simp only [isWhite, isBlank, Bool.or_eq_false_iff, beq_eq_false_iff_ne] at hwhite
      obtain ⟨⟨hspace, htab⟩, hbreak⟩ := hwhite
      simp [gapLength, hbreak, hspace, htab, hhash]

/-- A stream that is ready goes on to the first column of the line, where a key may start. -/
theorem Ready.skipGap_eq {columns : List Nat} {rest : List Char} {s : Stream}
    (h : s.Ready columns rest) (hrest : StartsToken rest) :
    ∃ i l, s.skipGap = ⟨⟨rest, i, l, 0⟩, columns, none, [], true, [], s.taken⟩ := by
  obtain ⟨⟨cs, i, l, k⟩, columns', candidate, outer, allowed, queue, taken⟩ := s
  obtain ⟨rfl, rfl, rfl, rfl, hplace⟩ := h
  rcases hplace with ⟨rfl, rfl, rfl⟩ | rfl
  · refine ⟨i, l, ?_⟩
    simp [skipGap, inFlow, gapLength_token hrest, Cursor.skip, moveTo, allowKey]
  · refine ⟨i + 1, l + 1, ?_⟩
    have hgap : ∀ tabs, gapLength false tabs false ('\n' :: rest) = 1 := by
      intro tabs
      rw [gapLength, if_pos (by decide), gapLength_token hrest]
    simp [skipGap, inFlow, hgap, Cursor.column_skip_feed, moveTo, allowKey]

/-! ## Which token starts -/

/-- A plain scalar starts with the character, given what follows it. -/
structure Plainly (c : Char) (after : List Char) : Prop where
  ink : isWhite c = false
  free : reservedStarts.contains c = false
  joined : c = '-' ∨ c = '?' ∨ c = ':' → startsBlank after = false

theorem Plainly.startsPlain_eq {c : Char} {after : List Char} (h : Plainly c after) :
    startsPlain false c after = true := by
  have hblank : startsBlank after = false → after.head?.any isBlank = false := by
    cases after with
    | nil =>
        intro hnil
        cases hnil
    | cons d ds =>
        intro hd
        exact (Bool.or_eq_false_iff.mp hd).1
  rw [startsPlain, h.ink, h.free, Bool.or_self, if_neg (by decide)]
  split
  next hdash =>
    rw [hblank (h.joined (.inl (beq_iff_eq.mp hdash)))]
    rfl
  next =>
    split
    next hmark =>
      have hc : c = '?' ∨ c = ':' := by simpa using hmark
      rw [h.joined (.inr hc)]
      rfl
    next => rfl

theorem eq_of_startsMarker {c d : Char} {cs : List Char}
    (h : startsMarker d (c :: cs) = true) : c = d := by
  simp only [startsMarker, List.take_succ_cons, Bool.and_eq_true, beq_iff_eq] at h
  exact (List.cons.inj h.1).1

theorem token?_plain {s : Stream} {c : Char} {after : List Char} (houter : s.outer = [])
    (h : Plainly c after) (hcolumn : s.cursor.column = 0 → c ≠ '-' ∧ c ≠ '.') :
    s.token? c after = s.plain? := by
  have hflow : s.inFlow = false := by rw [inFlow, houter]; rfl
  have hne : ∀ d ∈ reservedStarts, c ≠ d := by
    rintro d hd rfl
    have hmem : reservedStarts.contains c = true := List.contains_iff_mem.mpr hd
    rw [h.free] at hmem
    cases hmem
  have hmarker : ∀ d, d = '-' ∨ d = '.' →
      ¬ (s.cursor.column = 0 ∧ startsMarker d (c :: after) = true) := by
    rintro d hd ⟨hzero, hstarts⟩
    have hcd : c = d := eq_of_startsMarker hstarts
    rcases hd with rfl | rfl
    · exact (hcolumn hzero).1 hcd
    · exact (hcolumn hzero).2 hcd
  have hjoined : ∀ d, d = '-' ∨ d = '?' ∨ d = ':' → ¬ (c = d ∧ startsBlank after = true) := by
    rintro d hd ⟨rfl, hblank⟩
    rw [h.joined hd] at hblank
    cases hblank
  have hbar : ¬ ((c = '|' ∨ c = '>') ∧ (!false) = true) := by
    rintro ⟨rfl | rfl, -⟩
    · exact hne '|' (by decide) rfl
    · exact hne '>' (by decide) rfl
  have hkey : ¬ (c = '?' ∧ (false = true ∨ startsBlank after = true)) := by
    simpa using hjoined '?' (.inr (.inl rfl))
  have hvalue : ¬ (c = ':' ∧ (false = true ∨ startsBlank after = true)) := by
    simpa using hjoined ':' (.inr (.inr rfl))
  rw [token?, if_neg fun hdirective => hne '%' (by decide) hdirective.2,
    if_neg (hmarker '-' (.inl rfl)), if_neg (hmarker '.' (.inr rfl)), hflow,
    if_neg (hjoined '-' (.inl rfl)), if_neg hkey, if_neg hvalue, if_neg hbar,
    if_pos h.startsPlain_eq]
  all_goals exact hne _ (by decide)

theorem token?_quoted {s : Stream} {c : Char} {after : List Char} (h : c = '\'' ∨ c = '"') :
    s.token? c after = s.quoted? := by
  have hmarker : ∀ d, d ≠ '\'' → d ≠ '"' →
      ¬ (s.cursor.column = 0 ∧ startsMarker d (c :: after) = true) := by
    rintro d hsingle hdouble ⟨-, hstarts⟩
    obtain rfl : c = d := eq_of_startsMarker hstarts
    exact h.elim hsingle hdouble
  have hdirective : ¬ (s.cursor.column = 0 ∧ c = '%') := by
    rintro ⟨-, rfl⟩
    rcases h with h | h <;> cases h
  unfold token?
  rw [if_neg hdirective, if_neg (hmarker '-' (by decide) (by decide)),
    if_neg (hmarker '.' (by decide) (by decide))]
  rcases h with rfl | rfl <;> rfl

/-! ## Tokens that wait for nothing -/

/-- No token waits to be a key. -/
structure Settled (s : Stream) : Prop where
  candidate_eq : s.candidate = none
  outer_eq : s.outer = []

theorem Settled.refresh?_eq {s : Stream} (h : s.Settled) : s.refresh? = some s := by
  obtain ⟨cursor, columns, candidate, outer, allowed, queue, taken⟩ := s
  obtain ⟨rfl, rfl⟩ := h
  rfl

theorem Settled.fill?_eq {s : Stream} (h : s.Settled) {t : Token} {ts : List Token}
    (hqueue : s.queue = t :: ts) (bound : Nat) : fill? (bound + 1) s = some s := by
  have hwaits : s.waits = false := by
    simp [waits, hqueue, h.candidate_eq, h.outer_eq]
  rw [fill?, hqueue, h.refresh?_eq]
  simp [hwaits]

/-- A token that is there is given, and nothing is read. -/
theorem Settled.peek?_eq {s : Stream} (h : s.Settled) {t : Token} {ts : List Token}
    (hqueue : s.queue = t :: ts) : s.peek? = some (t, s) := by
  rw [peek?, h.fill?_eq hqueue]
  simp [hqueue]

theorem Settled.drop {s : Stream} (h : s.Settled) : s.drop.Settled :=
  ⟨h.candidate_eq, h.outer_eq⟩

/-! ## Keys -/

/-- A word that may be a key: characters of names, no dash among them, and not too many. -/
structure IsKey (key : List Char) : Prop where
  ne_nil : key ≠ []
  named : ∀ c ∈ key, isNameChar c = true ∧ c ≠ '-'
  short : key.length ≤ keyReach

namespace IsKey

section
variable {key rest : List Char}

/-- No character of a key is any of those that mean something else. -/
theorem ne_of_mem (h : IsKey key) {c d : Char} (hc : c ∈ key)
    (hd : isNameChar d = false) : c ≠ d :=
  ne_of_isNameChar (h.named c hc).1 hd

theorem isWhite_eq (h : IsKey key) {c : Char} (hc : c ∈ key) : isWhite c = false :=
  isWhite_of_isNameChar (h.named c hc).1

theorem isBreak_eq (h : IsKey key) : ∀ c ∈ key, isBreak c = false := fun _ hc =>
  (Bool.or_eq_false_iff.mp (h.isWhite_eq hc)).2

theorem startsToken (h : IsKey key) : StartsToken (key ++ rest) := by
  obtain ⟨c, cs, rfl⟩ := List.exists_cons_of_ne_nil h.ne_nil
  intro d hd
  obtain rfl : c = d := Option.some.inj hd
  exact ⟨h.isWhite_eq List.mem_cons_self, h.ne_of_mem List.mem_cons_self (by decide)⟩

theorem plainWord_eq (h : IsKey key) (hrest : startsBlank rest = true) :
    plainWord false (key ++ ':' :: rest) = key :=
  plainWord_append_of_ne (fun _ hc => ⟨h.isWhite_eq hc, h.ne_of_mem hc (by decide)⟩)
    (by simp [plainWord, hrest])

/-- A key is read up to its colon. -/
theorem plainText_eq (h : IsKey key) (hrest : startsBlank rest = true) (indent : Nat) :
    plainText false indent (key ++ ':' :: rest) = some ⟨key, key.length, false⟩ := by
  have hmore : ∀ bound, plainMore false indent (bound + 1) (':' :: rest) =
      some ⟨[], 0, false⟩ := by
    intro bound
    have hwhite : (':' :: rest).takeWhile isWhite = [] := by
      simp [show isWhite ':' = false by decide]
    rw [plainMore, hwhite]
    rfl
  rw [plainText, h.plainWord_eq hrest, List.drop_left, hmore, Option.map_some, List.append_nil]
  rfl

theorem plainly (h : IsKey key) {c : Char} {cs : List Char} (hkey : key = c :: cs)
    (after : List Char) : Plainly c after ∧ c ≠ '-' ∧ c ≠ '.' := by
  have hc : c ∈ key := hkey ▸ List.mem_cons_self
  have hne : ∀ d, isNameChar d = false → c ≠ d := fun d => h.ne_of_mem hc
  have hdash : c ≠ '-' := (h.named c hc).2
  refine ⟨⟨h.isWhite_eq hc, reservedStarts_of_isNameChar (h.named c hc).1, ?_⟩, hdash,
    hne '.' (by decide)⟩
  rintro (hc | hc | hc)
  · exact absurd hc hdash
  · exact absurd hc (hne '?' (by decide))
  · exact absurd hc (hne ':' (by decide))

end

end IsKey

/-- The start of the mapping, before its first key only. -/
def opening (columns : List Nat) (line : Nat) : List Token :=
  if columns.isEmpty then [⟨.blockMappingStart, line⟩] else []

/-- A key that waits for its colon, at the colon. -/
def waiting (columns : List Nat) (key rest : List Char) (i l n : Nat) : Stream :=
  ⟨⟨':' :: rest, i + key.length, l, key.length⟩, columns,
    some ⟨⟨key ++ ':' :: rest, i, l, 0⟩, n, columns.head? == some 0⟩, [], false,
    [⟨.scalar (String.ofList key) true, l⟩], n⟩

/-- A key whose colon has been read. -/
def keyed (columns : List Nat) (key rest : List Char) (i l n : Nat) : Stream :=
  ⟨⟨rest, i + key.length + 1, l, key.length + 1⟩, [0], none, [], false,
    opening columns l ++
      [⟨.key, l⟩, ⟨.scalar (String.ofList key) true, l⟩, ⟨.value, l⟩], n⟩

section
variable {s : Stream} {columns : List Nat} {key rest : List Char} {i l n : Nat}

/-- The key itself, which has to wait for its colon. -/
theorem advance?_key
    (hs : s.skipGap = ⟨⟨key ++ ':' :: rest, i, l, 0⟩, columns, none, [], true, [], n⟩)
    (hcolumns : columns = [] ∨ columns = [0]) (hkey : IsKey key) (hrest : startsBlank rest = true) :
    s.advance? = some (waiting columns key rest i l n) := by
  have hskip : (⟨key ++ ':' :: rest, i, l, 0⟩ : Cursor).skip key.length =
      ⟨':' :: rest, i + key.length, l, 0 + key.length⟩ :=
    Cursor.skip_inline hkey.isBreak_eq i l 0
  have hclose :
      closeBlocks ⟨⟨key ++ ':' :: rest, i, l, 0⟩, columns, none, [], true, [], n⟩ (some 0) =
        ⟨⟨key ++ ':' :: rest, i, l, 0⟩, columns, none, [], true, [], n⟩ := by
    rcases hcolumns with rfl | rfl <;> rfl
  have hread : plain? ⟨⟨key ++ ':' :: rest, i, l, 0⟩, columns, none, [], true, [], n⟩ =
      some (waiting columns key rest i l n) := by
    simp [waiting, plain?, addCandidate?, dropCandidate?, inFlow, column?, hkey.plainText_eq hrest,
      push, allowKey, moveTo, hskip]
  obtain ⟨c, cs, rfl⟩ := List.exists_cons_of_ne_nil hkey.ne_nil
  obtain ⟨hplainly, hsigns⟩ := hkey.plainly rfl (cs ++ ':' :: rest)
  rw [advance?, hs, Settled.refresh?_eq ⟨rfl, rfl⟩]
  simp only [Option.bind_eq_bind, Option.bind_some, List.cons_append]
  rw [← List.cons_append, hclose, token?_plain rfl hplainly fun _ => hsigns, hread]

theorem refresh?_waiting (hkey : IsKey key) :
    (waiting columns key rest i l n).refresh? = some (waiting columns key rest i l n) := by
  have hreach : ¬ i + keyReach < i + key.length := by
    have hshort := hkey.short
    omega
  simp [refresh?, waiting, refreshed?, Candidate.isPast, hreach]

/-- The colon makes what waits a key, and opens the mapping before the first one. -/
theorem advance?_waiting (hcolumns : columns = [] ∨ columns = [0]) (hkey : IsKey key)
    (hrest : startsBlank rest = true) :
    (waiting columns key rest i l n).advance? = some (keyed columns key rest i l n) := by
  have hpos : key.length ≠ 0 := fun hzero => hkey.ne_nil (List.length_eq_zero_iff.mp hzero)
  have hgap : (waiting columns key rest i l n).skipGap = waiting columns key rest i l n := by
    have htoken : StartsToken (':' :: rest) := by
      intro c hc
      obtain rfl : ':' = c := Option.some.inj hc
      decide
    simp [skipGap, waiting, inFlow, gapLength_token htoken, Cursor.skip, moveTo, allowKey]
  have hclose : (waiting columns key rest i l n).closeBlocks (some key.length) =
      waiting columns key rest i l n := by
    rcases hcolumns with rfl | rfl <;> simp [closeBlocks, waiting, inFlow]
  have htoken : (waiting columns key rest i l n).token? ':' rest =
      (waiting columns key rest i l n).value? := by
    have hcolumn : (waiting columns key rest i l n).cursor.column ≠ 0 := hpos
    simp [token?, hcolumn, hrest]
  have hvalue : (waiting columns key rest i l n).value? = some (keyed columns key rest i l n) := by
    rcases hcolumns with rfl | rfl <;>
      simp [value?, waiting, keyed, opening, insert, openBlock, inFlow, column?, allowKey, sign,
        push, moveTo, Cursor.skip, show isBreak ':' = false by decide]
  rw [advance?, hgap, refresh?_waiting hkey]
  show ((waiting columns key rest i l n).closeBlocks (some key.length)).token? ':' rest = _
  rw [hclose, htoken, hvalue]

/-- At the start of a line with a key, the next token is the start of the mapping or the key. -/
theorem Ready.peek?_key (h : s.Ready columns (key ++ ':' :: rest))
    (hcolumns : columns = [] ∨ columns = [0]) (hkey : IsKey key) (hrest : startsBlank rest = true) :
    ∃ i l, ∀ t ts, opening columns l ++ [⟨.key, l⟩, ⟨.scalar (String.ofList key) true, l⟩,
      ⟨.value, l⟩] = t :: ts → s.peek? = some (t, keyed columns key rest i l s.taken) := by
  obtain ⟨i, l, hskip⟩ := h.skipGap_eq hkey.startsToken
  refine ⟨i, l, ?_⟩
  intro t ts hts
  have hkeyed : (keyed columns key rest i l s.taken).queue = t :: ts := hts
  have hwaits : (waiting columns key rest i l s.taken).waits = true := by simp [waits, waiting]
  have hqueue : (waiting columns key rest i l s.taken).queue.isEmpty = false := rfl
  rw [peek?, fill?, h.queue_eq, List.isEmpty_nil, if_pos rfl,
    advance?_key hskip hcolumns hkey hrest]
  show (fill? (s.cursor.rest.length + 2) (waiting columns key rest i l s.taken) >>= _) = _
  rw [fill?, hqueue, if_neg (by decide), refresh?_waiting hkey]
  simp only [Option.bind_eq_bind, Option.bind_some, hwaits, if_true,
    advance?_waiting hcolumns hkey hrest]
  rw [Settled.fill?_eq ⟨rfl, rfl⟩ hkeyed]
  simp [hkeyed]

end

/-! ## Values -/

/-- The stream at the value of a key. -/
def valued (cs : List Char) (i l k n : Nat) : Stream :=
  ⟨⟨cs, i, l, k⟩, [0], none, [], false, [], n⟩

/-- The stream has read a scalar, and the next line is to come. -/
structure HasRead (text : List Char) (plain : Bool) (line : Nat) (rest : List Char) (s : Stream) :
    Prop where
  settled : s.Settled
  queue_eq : s.queue = [⟨.scalar (String.ofList text) plain, line⟩]
  ready : s.drop.Ready [0] rest

section
variable {c : Char} {text w rest : List Char} {plain : Bool} {i l k n : Nat}

/-- Reading on is reading the token, where one starts in the middle of a line. -/
theorem advance?_valued (hc : isWhite c = false ∧ c ≠ '#') :
    (valued (' ' :: c :: w) i l k n).advance? =
      (valued (c :: w) (i + 1) l (k + 1) n).token? c w := by
  have hgap : gapLength false true false (' ' :: c :: w) = 1 := by
    have htoken : StartsToken (c :: w) := by
      intro d hd
      exact Option.some.inj hd ▸ hc
    rw [gapLength, if_neg (by decide), if_neg (by decide), if_pos (.inl rfl),
      gapLength_token htoken]
  have hskip : (valued (' ' :: c :: w) i l k n).skipGap = valued (c :: w) (i + 1) l (k + 1) n := by
    simp [skipGap, valued, inFlow, hgap, Cursor.skip, show isBreak ' ' = false by decide, moveTo,
      allowKey]
  have hclose : (valued (c :: w) (i + 1) l (k + 1) n).closeBlocks (some (k + 1)) =
      valued (c :: w) (i + 1) l (k + 1) n := by
    simp [closeBlocks, valued, inFlow]
  rw [advance?, hskip, Settled.refresh?_eq ⟨rfl, rfl⟩]
  show ((valued (c :: w) (i + 1) l (k + 1) n).closeBlocks (some (k + 1))).token? c w = _
  rw [hclose]

/-- A plain value ends its line. -/
theorem plain?_valued {word more v : List Char} (hword : IsWord word) (hflows : Flows more v)
    (hrest : StartsLine rest) :
    ∃ s, (valued (word ++ v ++ '\n' :: rest) i l k n).plain? = some s ∧
      s.HasRead (word ++ more) true l rest := by
  have hread : plainText false 1 (word ++ v ++ '\n' :: rest) =
      some ⟨word ++ more, (word ++ v).length + 1, true⟩ :=
    plainText_eq hword hflows hrest (by decide) (by decide)
  have hplain : (valued (word ++ v ++ '\n' :: rest) i l k n).plain? =
      some ⟨(⟨word ++ v ++ '\n' :: rest, i, l, k⟩ : Cursor).skip ((word ++ v).length + 1), [0],
        none, [], true, [⟨.scalar (String.ofList (word ++ more)) true, l⟩], n⟩ := by
    rw [plain?]
    show (do let read ← plainText false 1 (word ++ v ++ '\n' :: rest); _) = _
    rw [hread]
    rfl
  have hfeed := Cursor.column_skip_feed (Cursor.rest_skip (word ++ v) ('\n' :: rest) i l k)
  rw [← Cursor.skip_add] at hfeed
  refine ⟨_, hplain, ⟨rfl, rfl⟩, rfl, rfl, rfl, rfl, rfl, .inl ?_⟩
  rw [drop, hfeed]
  exact ⟨rfl, rfl, rfl⟩

/-- A quoted value stands before the end of its line. -/
theorem quoted?_valued {cs : List Char} (hread : quotedText cs = some (text, w.length))
    (hcs : cs = w ++ '\n' :: rest) :
    ∃ s, (valued cs i l k n).quoted? = some s ∧ s.HasRead text false l rest := by
  have hquoted : (valued cs i l k n).quoted? =
      some ⟨(⟨cs, i, l, k⟩ : Cursor).skip w.length, [0], none, [], false,
        [⟨.scalar (String.ofList text) false, l⟩], n⟩ := by
    have hcandidate : (valued cs i l k n).addCandidate? = some (valued cs i l k n) := rfl
    have hrest : (valued cs i l k n).cursor.rest = cs := rfl
    rw [quoted?, hcandidate, Option.bind_eq_bind, Option.bind_some, hrest, hread]
    rfl
  refine ⟨_, hquoted, ⟨rfl, rfl⟩, rfl, rfl, rfl, rfl, rfl, .inr ?_⟩
  rw [drop, hcs]
  exact Cursor.rest_skip w _ i l k

/-- A value is read, however it is written. -/
theorem advance?_value (h : Inscribes text w plain) (hrest : StartsToken rest) :
    ∃ s, (valued (' ' :: (w ++ '\n' :: rest)) i l k n).advance? = some s ∧
      s.HasRead text plain l rest := by
  cases h with
  | @plain c word more v hword hfree hjoined hflows =>
      obtain ⟨c', cs', hcons, hwhite⟩ := hword.exists_head
      obtain rfl : c = c' := (List.cons.inj hcons).1
      have hhash : c ≠ '#' := by
        rintro rfl
        cases hfree
      have hnext : c = '-' ∨ c = '?' ∨ c = ':' →
          startsBlank (word ++ v ++ '\n' :: rest) = false := by
        intro hc
        have hwhole := hword.whole
        rw [plainWord] at hwhole
        split at hwhole
        next => cases hwhole
        next =>
          obtain ⟨d, ds, rfl, hd⟩ := IsWord.exists_head ⟨hjoined hc, (List.cons.inj hwhole).2⟩
          exact hd
      have htoken := advance?_valued (w := word ++ v ++ '\n' :: rest) (i := i) (l := l) (k := k)
        (n := n) ⟨hwhite, hhash⟩
      refine (?_ : ∃ s, (valued (' ' :: c :: (word ++ v ++ '\n' :: rest)) i l k n).advance? =
        some s ∧ _)
      rw [htoken, token?_plain rfl ⟨hwhite, hfree, hnext⟩ fun hzero =>
        absurd hzero (Nat.succ_ne_zero k)]
      exact plain?_valued hword hflows fun d hd => (hrest d hd).1
  | @quoted quote v _ ps hquote hv hfolds hmarker =>
      have hread : quotedText (quote :: (v ++ quote :: '\n' :: rest)) =
          some (text, (quote :: v ++ [quote]).length) := by
        rw [quotedText_eq hquote hv hfolds hmarker]
        simp
      have hwhite : isWhite quote = false ∧ quote ≠ '#' := by
        rcases hquote with rfl | rfl <;> decide
      have hcs : quote :: v ++ [quote] ++ '\n' :: rest = quote :: (v ++ quote :: '\n' :: rest) := by
        simp
      rw [hcs, advance?_valued hwhite, token?_quoted hquote]
      exact quoted?_valued hread hcs.symm

theorem peek?_value (h : Inscribes text w plain) (hrest : StartsToken rest) :
    ∃ s, (valued (' ' :: (w ++ '\n' :: rest)) i l k n).peek? =
        some (⟨.scalar (String.ofList text) plain, l⟩, s) ∧ s.HasRead text plain l rest := by
  obtain ⟨s, hadvance, hs⟩ := advance?_value h hrest (i := i) (l := l) (k := k) (n := n)
  refine ⟨s, ?_, hs⟩
  have hempty : (valued (' ' :: (w ++ '\n' :: rest)) i l k n).queue.isEmpty = true := rfl
  rw [peek?, fill?, hempty, if_pos rfl, hadvance]
  show (fill? _ s >>= _) = _
  rw [hs.settled.fill?_eq hs.queue_eq]
  simp [hs.queue_eq]

end

/-! ## The end -/

/-- At the end of the text the mapping is closed. -/
theorem Ready.peek?_end {s : Stream} (h : s.Ready [0] []) :
    ∃ l s', s.peek? = some (⟨.blockEnd, l⟩, s') ∧ s'.Settled ∧
      s'.queue = [⟨.blockEnd, l⟩, ⟨.streamEnd, l⟩] := by
  obtain ⟨i, l, hskip⟩ := h.skipGap_eq fun c hc => (by cases hc)
  have hadvance : s.advance? = some ⟨⟨[], i, l, 0⟩, [], none, [], false,
      [⟨.blockEnd, l⟩, ⟨.streamEnd, l⟩], s.taken⟩ := by
    rw [advance?, hskip, Settled.refresh?_eq ⟨rfl, rfl⟩]
    rfl
  refine ⟨l, ⟨⟨[], i, l, 0⟩, [], none, [], false, [⟨.blockEnd, l⟩, ⟨.streamEnd, l⟩], s.taken⟩, ?_,
    ⟨rfl, rfl⟩, rfl⟩
  rw [peek?, fill?, h.queue_eq, List.isEmpty_nil, if_pos rfl, hadvance]
  rfl

end Stream

end HamScript.Yaml
