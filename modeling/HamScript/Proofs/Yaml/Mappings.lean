/-
# Mappings are read line by line

An `Entry` is a line of a mapping together with the text that its value is to be read as.  A
document of such lines is read as the mapping with these entries, in their order
(`Document.read_lines`).

A node bears the number of its line, which only reports show.  It is left open here: how many lines
a value takes depends on where its blanks were broken.
-/
import HamScript.Proofs.Token.Classes
import HamScript.Proofs.Yaml.Lines

namespace HamScript.Yaml

/-! ## Entries and their nodes -/

/-- An entry of a mapping: its key, and its value as it is written and as it is to be read. -/
structure Entry where
  key : List Char
  written : List Char
  text : List Char
  plain : Bool

namespace Entry

/-- The line of an entry. -/
def line (e : Entry) : List Char :=
  e.key ++ ':' :: ' ' :: (e.written ++ ['\n'])

/-- The line stands for the entry. -/
structure Fits (e : Entry) : Prop where
  isKey : Stream.IsKey e.key
  inscribes : Inscribes e.text e.written e.plain
  inLines : InLines e.written

/-- The nodes of an entry on a line. -/
def nodes (e : Entry) (line : Nat) : Node × Node :=
  (.scalar line (String.ofList e.key) .plain,
    .scalar line (String.ofList e.text) (if e.plain then .plain else .quoted))

theorem line_append (e : Entry) (rest : List Char) :
    e.line ++ rest = e.key ++ ':' :: ' ' :: (e.written ++ '\n' :: rest) := by
  simp [line]

end Entry

/-- The entries of a mapping and their nodes, in the same order. -/
inductive NodesOf : List Entry → List (Node × Node) → Prop
  | nil : NodesOf [] []
  | cons {e : Entry} {es : List Entry} {ps : List (Node × Node)} (line : Nat) :
      NodesOf es ps → NodesOf (e :: es) (e.nodes line :: ps)

theorem startsToken_lines {es : List Entry} (h : ∀ e ∈ es, e.Fits) :
    Stream.StartsToken (es.flatMap Entry.line) := by
  cases es with
  | nil =>
      intro c hc
      cases hc
  | cons e es =>
      rw [List.flatMap_cons, Entry.line_append]
      exact (h e List.mem_cons_self).isKey.startsToken

/-! ## Steps of reading -/

namespace Reading

theorem bind_eq {α β : Type} {x : Reading α} {f : α → Reading β} {a : α} {r r' : Reader}
    (h : x r = some (a, r')) : (x >>= f) r = f a r' := by
  show StateT.bind x f r = _
  rw [StateT.bind, h]
  rfl

theorem peek_eq {r : Reader} {t : Token} {s : Stream} (h : r.stream.peek? = some (t, s)) :
    peek r = some (t, { r with stream := s }) := by
  show Option.bind (Option.bind r.stream.peek? fun a => some (a, r)) _ = _
  rw [h]
  rfl

theorem next_eq {r : Reader} {t : Token} {s : Stream} (h : r.stream.drop.peek? = some (t, s)) :
    next r = some (t, { r with stream := s }) := by
  show peek { r with stream := r.stream.drop } = _
  exact peek_eq h

/-- A token that bears no properties has none. -/
theorem properties_eq {r : Reader} {t : Token} (h : peek r = some (t, r))
    (hanchor : ∀ name, t.kind ≠ .anchor name)
    (htag : ∀ handle suffix, t.kind ≠ .tag handle suffix) :
    properties r = some (⟨none, none⟩, r) := by
  rw [properties, bind_eq h]
  cases hkind : t.kind
  case anchor name => exact absurd hkind (hanchor name)
  case tag handle suffix => exact absurd hkind (htag handle suffix)
  all_goals rfl

theorem collection_eq {content : Reading Node} {n : Node} {r r' : Reader}
    (h : content r = some (n, r')) (line : Nat) (tag : Tag) :
    collection line tag ⟨none, none⟩ content r = some (n, r') := by
  have hget : (get : Reading Reader) r = some (r, r) := rfl
  have hnone : ∀ (f : String → Reading Unit) (r : Reader), (none : Option String).forM f r =
      some ((), r) := fun _ _ => rfl
  rw [collection, bind_eq hget, bind_eq (hnone _ r), bind_eq h, bind_eq (hnone _ r')]
  rfl

section
variable {r : Reader} {s : Stream} {text : String} {plain : Bool} {l : Nat}

/-- A scalar without properties. -/
theorem node_scalar (h : r.stream.peek? = some (⟨.scalar text plain, l⟩, s))
    (hagain : s.peek? = some (⟨.scalar text plain, l⟩, s)) (n : Nat) (block entry : Bool) :
    node (n + 1) block entry r =
      some (.scalar l text (if plain then .plain else .quoted), { r with stream := s.drop }) := by
  have hpeek : peek { r with stream := s } = some (_, { r with stream := s }) := peek_eq hagain
  have hproperties := properties_eq hpeek (fun _ h => by cases h) fun _ _ h => by cases h
  rw [node, bind_eq (peek_eq h)]
  dsimp only
  rw [bind_eq hproperties, bind_eq hpeek]
  rfl

/-- A mapping without properties, in a block. -/
theorem node_mapping (h : r.stream.peek? = some (⟨.blockMappingStart, l⟩, s))
    (hagain : s.peek? = some (⟨.blockMappingStart, l⟩, s)) {n : Nat} {ps : List (Node × Node)}
    {r' : Reader} (hentries : entries n { r with stream := s.drop } = some (ps, r')) :
    node (n + 1) true false r = some (.mapping l ps, r') := by
  have hpeek : peek { r with stream := s } = some (_, { r with stream := s }) := peek_eq hagain
  have hproperties := properties_eq hpeek (fun _ h => by cases h) fun _ _ h => by cases h
  rw [node, bind_eq (peek_eq h)]
  dsimp only
  rw [bind_eq hproperties, bind_eq hpeek]
  have hcontent : (do drop; return Node.mapping l (← entries n) : Reading Node)
      { r with stream := s } = some (.mapping l ps, r') := by
    show (entries n >>= fun ps => pure (Node.mapping l ps)) { r with stream := s.drop } = _
    rw [bind_eq hentries]
    rfl
  exact collection_eq hcontent l .map

end

/-! ## Entries -/

section
variable {e : Entry} {rest : List Char} {s : Stream} {i l k : Nat}

/-- One entry: the key is read, then the colon is passed, then the value is read. -/
theorem entries_key (he : e.Fits) (hrest : Stream.StartsToken rest)
    (hs : s.peek? = some (⟨.key, l⟩,
      Stream.keyed [0] e.key (' ' :: (e.written ++ '\n' :: rest)) i l k)) :
    ∃ s', s'.Ready [0] rest ∧ ∀ (n : Nat) (r : Reader), r.stream = s →
      entries (n + 3) r =
        (do return e.nodes l :: (← entries (n + 2))) { r with stream := s' } := by
  obtain ⟨s', hvalue, hread⟩ := Stream.peek?_value he.inscribes hrest
    (i := i + e.key.length + 1) (l := l) (k := e.key.length + 1) (n := k + 3)
  refine ⟨s'.drop, hread.ready, ?_⟩
  rintro n r rfl
  -- The key, its text and the colon wait in the queue; the value is read only when it is asked for.
  let s₁ := Stream.keyed [0] e.key (' ' :: (e.written ++ '\n' :: rest)) i l k
  have hsettled : s₁.Settled := ⟨rfl, rfl⟩
  have hscalar : s₁.drop.peek? = some (⟨.scalar (String.ofList e.key) true, l⟩, s₁.drop) :=
    hsettled.drop.peek?_eq rfl
  have hcolon : s₁.drop.drop.peek? = some (⟨.value, l⟩, s₁.drop.drop) :=
    hsettled.drop.drop.peek?_eq rfl
  have hnext : s₁.drop.drop.drop.peek? =
      some (⟨.scalar (String.ofList e.text) e.plain, l⟩, s') := hvalue
  have hagain : s'.peek? = some (⟨.scalar (String.ofList e.text) e.plain, l⟩, s') :=
    hread.settled.peek?_eq hread.queue_eq
  have hkey : node (n + 2) true true { r with stream := s₁.drop } =
      some (.scalar l (String.ofList e.key) .plain, { r with stream := s₁.drop.drop }) :=
    node_scalar hscalar hscalar (n + 1) true true
  have hentry : entryValue (n + 2) { r with stream := s₁.drop.drop } =
      some (.scalar l (String.ofList e.text) (if e.plain then .plain else .quoted),
        { r with stream := s'.drop }) := by
    rw [entryValue, bind_eq (peek_eq hcolon), if_pos rfl, bind_eq (next_eq hnext)]
    exact node_scalar hagain hagain n true true
  rw [entries, bind_eq (peek_eq hs)]
  dsimp only
  rw [bind_eq (next_eq hscalar)]
  show (node (n + 2) true true >>= _) { r with stream := s₁.drop } = _
  rw [bind_eq hkey, bind_eq hentry]
  rfl

end

/-- All entries up to the end of the text; after them a token can be read. -/
theorem entries_lines {es : List Entry} (hes : ∀ e ∈ es, e.Fits) {s : Stream}
    (hs : s.Ready [0] (es.flatMap Entry.line)) :
    ∃ ps s' t, NodesOf es ps ∧ s'.peek? = some (t, s') ∧
      ∀ (n : Nat) (r : Reader), r.stream = s → es.length + 2 < n →
        entries n r = some (ps, { r with stream := s' }) := by
  induction es generalizing s with
  | nil =>
      obtain ⟨l, s', hend, hsettled, hqueue⟩ := hs.peek?_end
      have hlast : s'.drop.queue = [⟨.streamEnd, l⟩] := by
        rw [Stream.drop, hqueue]
        rfl
      refine ⟨[], s'.drop, ⟨.streamEnd, l⟩, .nil, hsettled.drop.peek?_eq hlast, ?_⟩
      rintro n r rfl hn
      obtain ⟨n, rfl⟩ := Nat.exists_eq_succ_of_ne_zero (Nat.ne_of_gt (Nat.zero_lt_of_lt hn))
      rw [entries, bind_eq (peek_eq hend)]
      rfl
  | cons e es ih =>
      have he := hes e List.mem_cons_self
      have hes' : ∀ e ∈ es, e.Fits := fun e' he' => hes e' (List.mem_cons_of_mem e he')
      rw [List.flatMap_cons, Entry.line_append] at hs
      obtain ⟨i, l, hkey⟩ := hs.peek?_key (.inr rfl) he.isKey rfl
      obtain ⟨s₁, hready, hstep⟩ := entries_key he (startsToken_lines hes') (hkey _ _ rfl)
      obtain ⟨ps, s', t, hnodes, hnext, hread⟩ := ih hes' hready
      refine ⟨_, s', t, .cons l hnodes, hnext, ?_⟩
      intro n r hr hn
      obtain ⟨n, rfl⟩ := Nat.exists_eq_add_of_le' (show 3 ≤ n by omega)
      rw [List.length_cons] at hn
      rw [hstep n r hr, bind_eq (hread (n + 2) _ rfl (by omega))]
      rfl

/-! ## Documents -/

/-- A document that is a mapping of lines. -/
theorem document_lines {es : List Entry} (hne : es ≠ []) (hes : ∀ e ∈ es, e.Fits) {n : Nat}
    (hn : es.length + 3 < n) :
    ∃ l ps r' t, NodesOf es ps ∧ peek r' = some (t, r') ∧
      document n ⟨Stream.start (es.flatMap Entry.line), [], []⟩ =
        some (some (.mapping l ps), r') := by
  obtain ⟨e, es, rfl⟩ := List.exists_cons_of_ne_nil hne
  have he := hes e List.mem_cons_self
  have hes' : ∀ e ∈ es, e.Fits := fun e' he' => hes e' (List.mem_cons_of_mem e he')
  have hready : (Stream.start ((e :: es).flatMap Entry.line)).Ready []
      (e.key ++ ':' :: ' ' :: (e.written ++ '\n' :: es.flatMap Entry.line)) := by
    rw [List.flatMap_cons, Entry.line_append]
    exact ⟨rfl, rfl, rfl, rfl, .inl ⟨rfl, rfl, rfl⟩⟩
  obtain ⟨i, l, hfirst⟩ := hready.peek?_key (.inl rfl) he.isKey rfl
  -- Looking at the first key reads up to its colon; the mapping has been opened by then.
  let s₁ := Stream.keyed [] e.key (' ' :: (e.written ++ '\n' :: es.flatMap Entry.line)) i l 0
  have hstart : (Stream.start ((e :: es).flatMap Entry.line)).peek? =
      some (⟨.blockMappingStart, l⟩, s₁) := hfirst _ _ rfl
  have hsettled : s₁.Settled := ⟨rfl, rfl⟩
  have hagain : s₁.peek? = some (⟨.blockMappingStart, l⟩, s₁) := hsettled.peek?_eq rfl
  have hkey : s₁.drop.peek? = some (⟨.key, l⟩, s₁.drop) := hsettled.drop.peek?_eq rfl
  obtain ⟨s₂, hready₂, hstep⟩ := entries_key he (startsToken_lines hes') hkey
  obtain ⟨ps, s', t, hnodes, hnext, hread⟩ := entries_lines hes' hready₂
  obtain ⟨n, rfl⟩ := Nat.exists_eq_add_of_le' (show 4 ≤ n by omega)
  rw [List.length_cons] at hn
  have hentries : entries (n + 3) ⟨s₁.drop, standardHandles, []⟩ =
      some (e.nodes l :: ps, ⟨s', standardHandles, []⟩) := by
    rw [hstep n _ rfl, bind_eq (hread (n + 2) _ rfl (by omega))]
    rfl
  have hpeek : peek ⟨s₁, [], []⟩ = some (⟨.blockMappingStart, l⟩, ⟨s₁, [], []⟩) := peek_eq hagain
  have hdirectives : directives (n + 4) false ⟨s₁, [], []⟩ =
      some ((), ⟨s₁, standardHandles, []⟩) := by
    rw [directives, bind_eq hpeek]
    rfl
  have hnode : node (n + 4) true false ⟨s₁, standardHandles, []⟩ =
      some (.mapping l (e.nodes l :: ps), ⟨s', standardHandles, []⟩) :=
    node_mapping hagain hagain hentries
  have hopen : peek ⟨Stream.start ((e :: es).flatMap Entry.line), [], []⟩ =
      some (⟨.blockMappingStart, l⟩, ⟨s₁, [], []⟩) := peek_eq hstart
  refine ⟨l, e.nodes l :: ps, ⟨s', standardHandles, []⟩, t, .cons l hnodes, peek_eq hnext, ?_⟩
  rw [document, bind_eq hopen]
  dsimp only
  rw [bind_eq hdirectives, bind_eq hnode]
  rfl

end Reading

/-! ## Texts -/

theorem isInline_of_isNameChar {c : Char} (h : isNameChar c = true) : isInline c = true := by
  have hrange : 0x20 ≤ c.toNat ∧ c.toNat ≤ 0x7E := by
    simp only [isNameChar, Char.isAlphanum, Bool.or_eq_true, beq_iff_eq, Text.isAlpha_iff,
      Char.isDigit_iff_toNat] at h
    rcases h with (((h | h) | h) | rfl) | rfl
    · exact ⟨Nat.le_trans (by decide) h.1, Nat.le_trans h.2 (by decide)⟩
    · exact ⟨Nat.le_trans (by decide) h.1, Nat.le_trans h.2 (by decide)⟩
    · exact ⟨Nat.le_trans (by decide) h.1, Nat.le_trans h.2 (by decide)⟩
    · decide
    · decide
  have hbreak : isBreak c = false := by
    have hne : ∀ d : Char, ¬ (0x20 ≤ d.toNat ∧ d.toNat ≤ 0x7E) → c ≠ d := by
      rintro d hd rfl
      exact hd hrange
    simp [isBreak, hne '\n' (by decide), hne '\u2028' (by decide), hne '\u2029' (by decide)]
  rw [isInline_iff, isVisible]
  simp [hrange.1, hrange.2, hbreak]

theorem Entry.Fits.inLines_line {e : Entry} (h : e.Fits) : InLines e.line := by
  have hkey : InLines e.key := .of_isInline fun c hc =>
    isInline_of_isNameChar (h.isKey.named c hc).1
  have hvalue : InLines (e.written ++ ['\n']) := h.inLines.append (.cons (.inr rfl) .nil)
  exact hkey.append (.cons (.inl (by decide)) (.cons (.inl isInline_blank) hvalue))

/-- A text of line feeds and characters within lines has no other breaks. -/
theorem unifyBreaks_eq {cs : List Char} (h : InLines cs) : unifyBreaks cs = cs := by
  have hother : ∀ c, isInline c = true ∨ c = '\n' → ¬ (c = '\r' ∨ c = '\u0085') := by
    rintro c (hc | rfl)
    · rintro (rfl | rfl)
      · exact absurd hc (by decide)
      · exact absurd hc (by decide)
    · decide
  fun_induction unifyBreaks cs with
  | case1 => rfl
  | case2 cs ih => exact absurd (.inl rfl) (hother '\r' (h '\r' List.mem_cons_self))
  | case3 c cs hpair ih =>
      rw [if_neg (hother c (h c List.mem_cons_self)),
        ih fun d hd => h d (List.mem_cons_of_mem c hd)]

theorem length_le_lines (es : List Entry) : es.length ≤ (es.flatMap Entry.line).length := by
  induction es with
  | nil => exact Nat.le_refl 0
  | cons e es ih =>
      have hline : 1 ≤ e.line.length := by simp [Entry.line]; omega
      rw [List.flatMap_cons, List.length_append, List.length_cons]
      omega

/-- A text made of the lines of entries is a document, and it is the mapping of these entries. -/
theorem Document.read_lines {es : List Entry} (hne : es ≠ []) (hes : ∀ e ∈ es, e.Fits) :
    ∃ l ps, NodesOf es ps ∧
      Document.read (String.ofList (es.flatMap Entry.line)) = some (some (.mapping l ps)) := by
  have hchars : InLines (es.flatMap Entry.line) := by
    intro c hc
    obtain ⟨e, he, hc⟩ := List.mem_flatMap.mp hc
    exact (hes e he).inLines_line c hc
  have hallowed : (es.flatMap Entry.line).all isAllowed = true := by
    rw [List.all_eq_true]
    intro c hc
    rcases hchars c hc with hc | rfl
    · exact isAllowed_of_isVisible (isInline_iff.mp hc).1
    · decide
  have hmark : (es.flatMap Entry.line).head? ≠ some '\uFEFF' := by
    intro hhead
    rcases hchars _ (List.mem_of_mem_head? hhead) with hc | hc
    · exact absurd hc (by decide)
    · exact absurd hc (by decide)
  have hbound : es.length + 3 < 8 * (es.flatMap Entry.line).length + 16 := by
    have hlength := length_le_lines es
    omega
  obtain ⟨l, ps, r', t, hnodes, hpeek, hread⟩ := Reading.document_lines hne hes hbound
  refine ⟨l, ps, hnodes, ?_⟩
  rw [Document.read, String.toList_ofList, if_pos hallowed, if_neg hmark, unifyBreaks_eq hchars]
  dsimp only
  rw [StateT.run, hread]
  show (do let _ ← Reading.peek.run r'; some (some (Node.mapping l ps)) : Option _) = _
  rw [StateT.run, hpeek]
  rfl

end HamScript.Yaml
