/-
# What is parsed is derived

If a parser for a phrase is done, the tokens it took derive the phrase.  For expressions the loop
over continuations carries the tier of the expression so far, and that nothing stands after it which
binds too tightly for this tier: an operator met next has its left operand at hand.
-/
import HamScript.Proofs.Syntax.Grammar
import HamScript.Syntax.Total

namespace HamScript

open Grammar
open Source (Position Span)

/-! ## Grammar and parser on single tokens -/

theorem Decimal.natural?_eq_some_iff {text : String} {n : Nat} :
    Decimal.natural? text.toList = some n ↔ IsInt text n := by
  simp [Decimal.natural?, IsInt, and_assoc, @eq_comm _ n]

theorem Expr.target?_eq_some_iff {e : Expr} {x : Ident} :
    e.target? = some x ↔ Designates e x := by
  unfold Designates
  cases e <;> simp [Expr.target?]

namespace Parser.Continuation

/-- The kind of token that a continuation begins with. -/
def firstKind : Continuation → Kind
  | assign => .assign
  | operator op => op.kind
  | call => .leftParen
  | method => .period

theorem ofKind?_eq_some_iff {kind : Kind} {c : Continuation} :
    ofKind? kind = some c ↔ kind = c.firstKind := by
  constructor
  · intro h
    cases kind <;> simp [ofKind?, BinaryOp.ofKind?] at h <;> subst h <;> rfl
  · rintro rfl
    cases c with
    | operator op => cases op <;> rfl
    | assign | call | method => rfl

theorem firstKind_mem_links (c : Continuation) : c.firstKind ∈ links := by
  cases c with
  | operator op => cases op <;> decide
  | assign | call | method => decide

theorem exists_of_mem_links {kind : Kind} (h : kind ∈ links) : ∃ c, ofKind? kind = some c := by
  simp only [links, List.mem_cons, List.not_mem_nil, or_false] at h
  rcases h with rfl | rfl | rfl | rfl | rfl | rfl | rfl | rfl | rfl <;> exact ⟨_, rfl⟩

theorem strength_pos (c : Continuation) : 0 < c.strength := by
  cases c with
  | operator op => cases op <;> decide
  | assign | call | method => decide

theorem strength_le_six (c : Continuation) : c.strength ≤ 6 := by
  cases c with
  | operator op => cases op <;> decide
  | assign | call | method => decide

theorem opStrength_eq (op : BinaryOp) : opStrength op = tierOf op + 1 := by
  cases op <;> rfl

theorem tierOf_bounds (op : BinaryOp) : 1 ≤ tierOf op ∧ tierOf op ≤ 3 := by
  cases op <;> decide

end Parser.Continuation

/-! ## What a parser has taken -/

namespace Parsing

/-- From the one input to the other the tokens `ts` were taken. -/
structure Input.Takes (s : Input) (ts : List Token) (s' : Input) : Prop where
  tokens : s.tokens = ts ++ s'.tokens
  stop : s'.stop = s.stop
  last : s'.last = endFrom s.last ts

namespace Input.Takes

variable {s s₁ s₂ : Input} {t : Token} {ts us : List Token}

theorem refl (s : Input) : s.Takes [] s :=
  ⟨rfl, rfl, rfl⟩

theorem trans (h₁ : s.Takes ts s₁) (h₂ : s₁.Takes us s₂) : s.Takes (ts ++ us) s₂ where
  tokens := by rw [h₁.tokens, h₂.tokens, List.append_assoc]
  stop := h₂.stop.trans h₁.stop
  last := by rw [h₂.last, h₁.last, endFrom_append]

theorem cons (h₁ : s.Takes [t] s₁) (h₂ : s₁.Takes us s₂) : s.Takes (t :: us) s₂ :=
  h₁.trans h₂

theorem eq_of_nil (h : s.Takes [] s₁) : s₁ = s :=
  calc
    s₁ = ⟨[] ++ s₁.tokens, s₁.stop, s₁.last⟩ := rfl
    _ = ⟨s.tokens, s.stop, s.last⟩ := by rw [← h.tokens, h.stop, h.last, endFrom_nil]

theorem last_eq (h : s.Takes ts s₁) (hne : ts ≠ []) : s₁.last = endOf ts := by
  rw [h.last, endFrom_eq_endOf hne]

theorem peek (h : s.Takes (t :: ts) s₁) : Parser.peek s = .done t s := by
  unfold Parser.peek
  rw [h.tokens]
  rfl

end Input.Takes

end Parsing

namespace Parser

open Parsing

theorem peek_unique {s : Input} {t t' : Token} (h : peek s = .done t s) (h' : peek s = .done t' s) :
    t = t' := by
  rw [h] at h'
  exact (Reply.done.inj h').1

/-- `Q` holds of what the parser has read, if it is done. -/
def Yields {α : Type} (p : Parser α) (s : Input) (Q : α → Input → Prop) : Prop :=
  ∀ a s', p s = .done a s' → Q a s'

section
variable {α β : Type} {s : Input}

theorem Yields.mono {p : Parser α} {Q Q' : α → Input → Prop} (h : Yields p s Q)
    (hQ : ∀ a s', Q a s' → Q' a s') : Yields p s Q' :=
  fun a s' hs => hQ a s' (h a s' hs)

theorem yields_pure {a : α} {Q : α → Input → Prop} (h : Q a s) : Yields (pure a) s Q := by
  intro a' s' hs
  obtain ⟨rfl, rfl⟩ := Reply.done.inj hs
  exact h

theorem yields_raise {e : SyntaxFault} {Q : α → Input → Prop} : Yields (raise e) s Q :=
  fun _ _ hs => nomatch hs

theorem yields_exhausted {Q : α → Input → Prop} : Yields exhausted s Q :=
  fun _ _ hs => nomatch hs

/-- A step, and what follows it. -/
theorem yields_then {p : Parser β} {f : β → Parser α} {R : β → Input → Prop}
    {Q : α → Input → Prop} (hp : Yields p s R) (hf : ∀ b s', R b s' → Yields (f b) s' Q) :
    Yields (p >>= f) s Q := by
  intro a s' hs
  change Parser.bind p f s = .done a s' at hs
  unfold Parser.bind at hs
  split at hs
  next b s₁ hb => exact hf b s₁ (hp b s₁ hb) a s' hs
  all_goals exact nomatch hs

/-- The span of what has been read ends where the token taken last ends. -/
theorem yields_span {first : Position} {make : Span → α} {Q : α → Input → Prop}
    (h : Q (make ⟨first, s.last⟩) s) :
    Yields (do let span ← spanFrom first; return make span) s Q :=
  yields_pure h

end

section
variable {s : Input}

theorem yields_peek : Yields peek s fun t s' => s' = s ∧ peek s = .done t s := by
  intro t s' hs
  have hsame : s' = s := by
    unfold peek at hs
    split at hs
    · exact (Reply.done.inj hs).2.symm
    · split at hs
      · exact (Reply.done.inj hs).2.symm
      · exact nomatch hs
  subst hsame
  exact ⟨rfl, hs⟩

theorem yields_next : Yields next s fun t s' => s.Takes [t] s' ∨ t.kind = .eof := by
  intro t s' hs
  unfold next at hs
  split at hs
  next t' ts h =>
    obtain ⟨rfl, rfl⟩ := Reply.done.inj hs
    exact .inl ⟨h, rfl, rfl⟩
  next =>
    split at hs
    · obtain ⟨rfl, -⟩ := Reply.done.inj hs
      exact .inr rfl
    · exact nomatch hs

/-- A token that has been looked at is taken. -/
theorem yields_next_of_peek {t : Token} (hpeek : peek s = .done t s) (hkind : t.kind ≠ .eof) :
    Yields next s fun t' s' => t' = t ∧ s.Takes [t] s' := by
  intro t' s' hs
  unfold peek at hpeek
  unfold next at hs
  split at hpeek
  next t₁ ts h =>
    obtain ⟨rfl, -⟩ := Reply.done.inj hpeek
    rw [h] at hs
    obtain ⟨rfl, rfl⟩ := Reply.done.inj hs
    exact ⟨rfl, h, rfl, rfl⟩
  next =>
    split at hpeek
    · obtain ⟨rfl, -⟩ := Reply.done.inj hpeek
      exact absurd rfl hkind
    · exact nomatch hpeek

theorem yields_expect {kinds : List Kind} (hkinds : .eof ∉ kinds) :
    Yields (expect kinds) s fun t s' => t.kind ∈ kinds ∧ s.Takes [t] s' := by
  refine yields_then yields_next fun t s' ht => ?_
  by_cases hmem : t.kind ∈ kinds
  · rw [if_pos (List.contains_iff_mem.mpr hmem)]
    refine yields_pure ⟨hmem, ht.resolve_right fun heof => ?_⟩
    rw [heof] at hmem
    exact hkinds hmem
  · rw [if_neg fun h => hmem (List.contains_iff_mem.mp h)]
    exact yields_raise

theorem yields_expect_one {kind : Kind} (hkind : kind ≠ .eof) :
    Yields (expect [kind]) s fun t s' => t.kind = kind ∧ s.Takes [t] s' :=
  (yields_expect fun h => hkind (List.mem_singleton.mp h).symm).mono fun _ _ h =>
    ⟨List.mem_singleton.mp h.1, h.2⟩

theorem yields_peekIs {kind : Kind} :
    Yields (peekIs kind) s fun b s' => s' = s ∧ ∃ t, peek s = .done t s ∧ b = (t.kind == kind) := by
  refine yields_then yields_peek fun t s' ht => ?_
  exact yields_pure ⟨ht.1, t, ht.2, rfl⟩

theorem yields_onSameLine : Yields onSameLine s fun b s' => s' = s ∧
    ∃ t, peek s = .done t s ∧ b = (t.span.first.line == s.last.line) := by
  intro b s' hs
  unfold onSameLine at hs
  split at hs
  next t s₁ ht =>
    obtain ⟨rfl, hpeek⟩ := yields_peek t s₁ ht
    obtain ⟨rfl, rfl⟩ := Reply.done.inj hs
    exact ⟨rfl, t, hpeek, rfl⟩
  all_goals exact nomatch hs

theorem yields_ident : Yields ident s fun x s' => ∃ t, IsName t x ∧ s.Takes [t] s' := by
  refine yields_then (yields_expect_one Kind.noConfusion) fun t s' ht => ?_
  exact yields_pure ⟨t, ⟨ht.1, rfl⟩, ht.2⟩

end

/-! ## Lists and blocks -/

/-- Every item that the parser reads is one of the grammar. -/
def Sound {α : Type} (p : Parser α) (Item : α → List Token → Prop) : Prop :=
  ∀ s, Yields p s fun a s' => ∃ ts, s.Takes ts s' ∧ Item a ts

theorem sound_commaList {α : Type} {p : Parser α} {Item : α → List Token → Prop}
    (h : Sound p Item) : (n : Nat) → Sound (commaList p n) (CommaList Item)
  | 0, _ => yields_exhausted
  | n + 1, s => by
      refine yields_then yields_peekIs fun closed s₁ hs₁ => ?_
      obtain ⟨rfl, t, ht, rfl⟩ := hs₁
      split
      · refine yields_then (yields_expect_one Kind.noConfusion) fun c s₂ hc => ?_
        exact yields_pure ⟨[c], hc.2, .none hc.1⟩
      · refine yields_then (h s₁) fun a s₂ ha => ?_
        obtain ⟨ts, hts, ha⟩ := ha
        refine yields_then yields_peekIs fun closed s₃ hs₃ => ?_
        obtain ⟨rfl, t', ht', rfl⟩ := hs₃
        split
        · refine yields_then (yields_expect_one Kind.noConfusion) fun c s₄ hc => ?_
          exact yields_pure ⟨ts ++ [c], hts.trans hc.2, .one ha hc.1⟩
        next hnot =>
          refine yields_then (yields_expect (by decide)) fun c s₄ hc => ?_
          refine yields_then (sound_commaList h n s₄) fun as s₅ has => ?_
          obtain ⟨us, hus, has⟩ := has
          -- the parenthesis has been ruled out by looking
          have hne : c.kind ≠ .rightParen := by
            obtain rfl := peek_unique ht' hc.2.peek
            simpa using hnot
          have hcomma : c.kind = .comma := by simpa [hne] using hc.1
          exact yields_pure ⟨ts ++ c :: us, hts.trans (hc.2.cons hus), .more ha hcomma has⟩

theorem sound_params (n : Nat) : Sound (params n) Params := by
  intro s
  have hname : Sound ident fun x us => ∃ t, us = [t] ∧ IsName t x := fun s =>
    yields_ident.mono fun x s' ⟨t, hx, ht⟩ => ⟨[t], ht, t, rfl, hx⟩
  refine yields_then (yields_expect_one Kind.noConfusion) fun o s₁ ho => ?_
  refine (sound_commaList hname n s₁).mono fun xs s₂ hxs => ?_
  obtain ⟨us, hus, hxs⟩ := hxs
  exact ⟨o :: us, ho.2.cons hus, o, us, rfl, ho.1, hxs⟩

theorem derives_args {es : List Expr} {us : List Token}
    (h : CommaList (fun e ts => Derives (.expr 0 e) ts) es us) : Derives (.args es) us := by
  induction h with
  | none hc => exact .noArgs hc
  | one he hc => exact .lastArg he hc
  | more he hc _ ih => exact .moreArgs he hc ih

/-! ## Expressions -/

/-- Nothing that binds more tightly than `strength` goes on with the expression that ends here. -/
def Quiet (strength : Nat) (s : Input) : Prop :=
  ∀ t, peek s = .done t s → ∀ c, Continuation.ofKind? t.kind = some c → strength < c.strength →
    t.span.first.line ≠ s.last.line

theorem Quiet.mono {k k' : Nat} {s : Input} (h : Quiet k s) (hk : k ≤ k') : Quiet k' s :=
  fun t ht c hc hlt => h t ht c hc (Nat.lt_of_le_of_lt hk hlt)

theorem quiet_six (s : Input) : Quiet 6 s :=
  fun _ _ c _ hlt => absurd hlt (Nat.not_lt.mpr c.strength_le_six)

/-- The strength of what may go on with an expression of a tier. -/
def room (tier : Nat) : Nat :=
  if tier = 0 then 0 else tier + 1

theorem ends_of_quiet {s s' : Input} {ts : List Token} {next : Token} (hts : s.Takes ts s')
    (hne : ts ≠ []) (hquiet : Quiet 0 s') (hnext : peek s' = .done next s') : Ends ts next := by
  intro hlink hline
  obtain ⟨c, hc⟩ := Continuation.exists_of_mem_links hlink
  refine hquiet next hnext c hc c.strength_pos ?_
  rw [hts.last_eq hne]
  exact hline

/-- The parsers for expressions yield expressions of the tier that belongs to their strength, with
nothing left that could go on with them. -/
def SoundExpr (E : Nat → Parser Expr) : Prop :=
  ∀ k, k ≤ 5 → ∀ s, Yields (E k) s fun e s' =>
    ∃ ts, s.Takes ts s' ∧ Derives (.expr (min k 4) e) ts ∧ Quiet k s'

section
variable {E : Nat → Parser Expr} {B : Parser Block}

theorem sound_args (hE : SoundExpr E) (n : Nat) :
    Sound (commaList (E loosest) n) fun es ts => Derives (.args es) ts := by
  intro s
  have hitem : Sound (E loosest) fun e ts => Derives (.expr 0 e) ts := fun s =>
    (hE 0 (Nat.zero_le 5) s).mono fun e s' ⟨ts, hts, he, _⟩ => ⟨ts, hts, he⟩
  exact (sound_commaList hitem n s).mono fun es s' ⟨us, hus, hes⟩ => ⟨us, hus, derives_args hes⟩

theorem sound_fnRest (hB : Sound B fun b ts => Derives (.block b) ts) (n : Nat) {s₀ s : Input}
    {f : Token} (hf : f.kind = .fnWord) (htake : s₀.Takes [f] s) :
    Yields (fnRest B n f.span.first) s fun e s' =>
      ∃ ts, s₀.Takes ts s' ∧ Derives (.expr 6 e) ts := by
  refine yields_then (sound_params n s) fun xs s₁ hxs => ?_
  obtain ⟨us, hus, hxs⟩ := hxs
  refine yields_then (hB s₁) fun b s₂ hb => ?_
  obtain ⟨vs, hvs, hb⟩ := hb
  refine yields_span ⟨f :: (us ++ vs), htake.cons (hus.trans hvs), ?_⟩
  rw [hvs.last_eq hb.block_ne_nil]
  exact .fn hf hxs hb

/-- What stands before the first continuation is of the last tier, or a negation that nothing goes
on with. -/
theorem sound_primary (hE : SoundExpr E) (hB : Sound B fun b ts => Derives (.block b) ts) (n : Nat)
    (s : Input) : Yields (primary E B n) s fun e s' => ∃ ts, s.Takes ts s' ∧
      (Derives (.expr 6 e) ts ∨ Derives (.expr 4 e) ts ∧ Quiet 5 s') := by
  refine yields_then yields_next fun t s₁ ht => ?_
  rcases ht.symm with heof | ht
  · dsimp only
    rw [heof]
    exact yields_raise
  split
  next hk =>
    unfold literal
    split
    next v hv => exact yields_pure ⟨[t], ht, .inl (.int hk (Decimal.natural?_eq_some_iff.mp hv))⟩
    next => exact yields_raise
  next hk =>
    unfold literal
    split
    next v hv => exact yields_pure ⟨[t], ht, .inl (.float hk hv)⟩
    next => exact yields_raise
  next hk =>
    exact yields_pure ⟨[t], ht, .inl (.string hk)⟩
  next hk =>
    exact yields_pure ⟨[t], ht, .inl (.truth hk)⟩
  next hk =>
    exact yields_pure ⟨[t], ht, .inl (.falsity hk)⟩
  next hk =>
    exact yields_pure ⟨[t], ht, .inl (.var ⟨hk, rfl⟩)⟩
  next hk =>
    refine yields_then (hE 0 (Nat.zero_le 5) s₁) fun e s₂ he => ?_
    obtain ⟨ts, hts, he, -⟩ := he
    refine yields_then (yields_expect_one Kind.noConfusion) fun c s₃ hc => ?_
    exact yields_pure ⟨t :: (ts ++ [c]), ht.cons (hts.trans hc.2), .inl (.paren hk he hc.1)⟩
  next hk =>
    refine yields_then (hE 5 (Nat.le_refl 5) s₁) fun e s₂ he => ?_
    obtain ⟨ts, hts, he, hquiet⟩ := he
    refine yields_span ⟨t :: ts, ht.cons hts, .inr ⟨?_, hquiet⟩⟩
    rw [hts.last_eq he.expr_ne_nil]
    exact .negate hk he
  next hk =>
    exact (sound_fnRest hB n hk ht).mono fun e s' ⟨ts, hts, he⟩ => ⟨ts, hts, .inl he⟩
  next hk =>
    refine yields_then yields_ident fun x s₂ hx => ?_
    obtain ⟨t', hx, ht'⟩ := hx
    refine yields_span ⟨[t, t'], ht.cons ht', .inl ?_⟩
    rw [ht'.last]
    exact .ref hk hx
  next => exact yields_raise

/-- A continuation makes an expression of its own tier. -/
theorem sound_continuation (hE : SoundExpr E) (n : Nat) {left : Expr} {tier : Nat}
    {ts : List Token} {t : Token} {c : Continuation} (hleft : Derives (.expr tier left) ts)
    (hkind : t.kind = c.firstKind) (hline : Adjoins ts t) (hroom : c.strength ≤ room tier)
    (s : Input) : Yields (continuation E n left c) s fun e s' => ∃ us, s.Takes us s' ∧
      Derives (.expr (c.strength - 1) e) (ts ++ t :: us) ∧ Quiet (room (c.strength - 1)) s' := by
  have hpos : 0 < tier := by
    refine Nat.pos_of_ne_zero fun h => ?_
    rw [h] at hroom
    exact absurd c.strength_pos (Nat.not_lt.mpr hroom)
  have hle : c.strength ≤ tier + 1 := by
    rwa [room, if_neg (Nat.ne_of_gt hpos)] at hroom
  cases c with
  | assign =>
      simp only [continuation]
      split
      next => exact yields_raise
      next x hx =>
        refine yields_then (hE 0 (Nat.zero_le 5) s) fun v s₁ hv => ?_
        obtain ⟨us, hus, hv, hquiet⟩ := hv
        refine yields_span ⟨us, hus, ?_, hquiet⟩
        rw [hus.last_eq hv.expr_ne_nil]
        exact .assign (hleft.of_le hpos) (Expr.target?_eq_some_iff.mp hx) hkind hline hv
  | operator op =>
      obtain ⟨hone, hthree⟩ := Continuation.tierOf_bounds op
      simp only [Continuation.strength, Continuation.opStrength_eq, Nat.add_sub_cancel] at hle ⊢
      have hroom : room (tierOf op) = tierOf op + 1 := if_neg (by omega)
      refine yields_then (hE _ (by rw [Continuation.opStrength_eq]; omega) s) fun r s₁ hr => ?_
      obtain ⟨us, hus, hr, hquiet⟩ := hr
      rw [Continuation.opStrength_eq, Nat.min_eq_left (by omega)] at hr
      rw [Continuation.opStrength_eq, ← hroom] at hquiet
      refine yields_span ⟨us, hus, ?_, hquiet⟩
      rw [hus.last_eq hr.expr_ne_nil]
      exact .binary (hleft.of_le (by omega)) hkind hline hr
  | call =>
      refine yields_then (sound_args hE n s) fun es s₁ hes => ?_
      obtain ⟨us, hus, hes⟩ := hes
      refine yields_span ⟨us, hus, ?_, quiet_six s₁⟩
      rw [hus.last_eq hes.args_ne_nil]
      exact .call (hleft.of_le (Nat.le_of_succ_le_succ hle)) hkind hline hes
  | method =>
      refine yields_then yields_ident fun x s₁ hx => ?_
      obtain ⟨d, hx, hd⟩ := hx
      refine yields_then (yields_expect_one Kind.noConfusion) fun o s₂ ho => ?_
      refine yields_then (sound_args hE n s₂) fun es s₃ hes => ?_
      obtain ⟨us, hus, hes⟩ := hes
      refine yields_span ⟨d :: o :: us, hd.cons (ho.2.cons hus), ?_, quiet_six s₃⟩
      rw [hus.last_eq hes.args_ne_nil]
      exact .method (hleft.of_le (Nat.le_of_succ_le_succ hle)) hkind hline hx ho.1 hes

/-- The loop over continuations, from an expression of some tier on. -/
theorem sound_continueFrom (hE : SoundExpr E) {k : Nat} {s₀ : Input} :
    (n : Nat) → {left : Expr} → {tier : Nat} → {ts : List Token} → {s : Input} →
    s₀.Takes ts s → Derives (.expr tier left) ts → Quiet (room tier) s → min k 4 ≤ tier →
    Yields (continueFrom E k n left) s fun e s' =>
      ∃ us, s₀.Takes us s' ∧ Derives (.expr (min k 4) e) us ∧ Quiet k s'
  | 0, _, _, _, _, _, _, _, _ => yields_exhausted
  | n + 1, left, tier, ts, s, hts, hleft, hquiet, hk => by
      refine yields_then yields_peek fun t s₁ hs₁ => ?_
      obtain ⟨rfl, ht⟩ := hs₁
      -- where the loop stops, nothing of a greater strength goes on
      have hstop : (∀ c, Continuation.ofKind? t.kind = some c → k < c.strength →
          t.span.first.line ≠ s₁.last.line) → ∃ us, s₀.Takes us s₁ ∧
            Derives (.expr (min k 4) left) us ∧ Quiet k s₁ := by
        intro h
        refine ⟨ts, hts, hleft.of_le hk, fun t' ht' => ?_⟩
        obtain rfl := peek_unique ht ht'
        exact h
      split
      next hnone => exact yields_pure (hstop fun c hc => by rw [hnone] at hc; exact nomatch hc)
      next c hc =>
        split
        next hle =>
          refine yields_pure (hstop fun c' hc' hlt => ?_)
          obtain rfl := Option.some.inj (hc.symm.trans hc')
          exact absurd hlt (Nat.not_lt.mpr hle)
        next hlt =>
          refine yields_then yields_onSameLine fun sameLine s₂ hs₂ => ?_
          obtain ⟨rfl, t', ht', rfl⟩ := hs₂
          obtain rfl := peek_unique ht ht'
          split
          next hline =>
            have hline := beq_iff_eq.mp hline
            have hkind := Continuation.ofKind?_eq_some_iff.mp hc
            have hroom : c.strength ≤ room tier :=
              Nat.le_of_not_lt fun hlt => hquiet t ht c hc hlt hline
            have hadjoins : Adjoins ts t := by
              rw [hts.last_eq hleft.expr_ne_nil] at hline
              exact hline
            have heof : t.kind ≠ .eof := by
              rw [hkind]
              cases c with
              | operator op => cases op <;> exact Kind.noConfusion
              | assign | call | method => exact Kind.noConfusion
            refine yields_then (yields_next_of_peek ht heof) fun t' s₃ ht₃ => ?_
            obtain ⟨rfl, ht₃⟩ := ht₃
            refine yields_then (sound_continuation hE n hleft hkind hadjoins hroom s₃)
              fun longer s₄ hlonger => ?_
            obtain ⟨us, hus, hlonger, hquiet⟩ := hlonger
            exact sound_continueFrom hE n (hts.trans (ht₃.cons hus)) hlonger hquiet (by omega)
          next hline =>
            exact yields_pure (hstop fun _ _ _ h => hline (beq_iff_eq.mpr h))

theorem sound_exprOf (hE : SoundExpr E) (hB : Sound B fun b ts => Derives (.block b) ts) (n : Nat) :
    SoundExpr (exprOf E B n) := by
  intro k hk s
  refine yields_then (sound_primary hE hB n s) fun left s₁ hleft => ?_
  obtain ⟨ts, hts, hleft | ⟨hleft, hquiet⟩⟩ := hleft
  · exact sound_continueFrom hE n hts hleft ((quiet_six s₁).mono (by decide)) (by omega)
  · exact sound_continueFrom hE n hts hleft hquiet (by omega)

/-! ## Statements -/

/-- The tokens taken are a statement before the next token. -/
def StmtTaken (s : Input) (st : Stmt) (s' : Input) : Prop :=
  ∃ ts, s.Takes ts s' ∧ ts ≠ [] ∧ ∀ next, peek s' = .done next s' → Derives (.stmt st next) ts

theorem sound_fnStmt (hE : SoundExpr E) (hB : Sound B fun b ts => Derives (.block b) ts) (n : Nat)
    {s : Input} {t : Token} (ht : peek s = .done t s) (hkind : t.kind = .fnWord) :
    Yields (fnStmt E B n) s (StmtTaken s) := by
  refine yields_then (yields_next_of_peek ht (by rw [hkind]; exact Kind.noConfusion))
    fun t' s₁ ht₁ => ?_
  obtain ⟨rfl, ht₁⟩ := ht₁
  refine yields_then yields_peekIs fun named s₂ hs₂ => ?_
  obtain ⟨rfl, t₂, ht₂, rfl⟩ := hs₂
  split
  · refine yields_then yields_ident fun x s₃ hx => ?_
    obtain ⟨t₃, hx, ht₃⟩ := hx
    refine yields_then (sound_params n s₃) fun xs s₄ hxs => ?_
    obtain ⟨us, hus, hxs⟩ := hxs
    refine yields_then (hB s₄) fun b s₅ hb => ?_
    obtain ⟨vs, hvs, hb⟩ := hb
    refine yields_span ⟨t' :: t₃ :: (us ++ vs), ht₁.cons (ht₃.cons (hus.trans hvs)), by simp, ?_⟩
    intro next _
    rw [hvs.last_eq hb.block_ne_nil]
    exact .fnDecl next hkind hx hxs hb
  · refine yields_then (sound_fnRest hB n hkind ht₁) fun left s₃ hleft => ?_
    obtain ⟨ts, hts, hleft⟩ := hleft
    have hroom : Quiet (room 6) s₃ := (quiet_six s₃).mono (by decide)
    refine yields_then (sound_continueFrom hE (k := 0) n hts hleft hroom (by omega))
      fun e s₄ he => ?_
    obtain ⟨us, hus, he, hquiet⟩ := he
    refine yields_span ⟨us, hus, he.expr_ne_nil, fun next hnext => ?_⟩
    obtain ⟨t₄, us, rfl⟩ := List.exists_cons_of_ne_nil he.expr_ne_nil
    obtain rfl := peek_unique ht hus.peek
    rw [hus.last_eq he.expr_ne_nil]
    exact .expr he (ends_of_quiet hus he.expr_ne_nil hquiet hnext)

theorem sound_returnRest (hE : SoundExpr E) {s₀ s : Input} {t : Token}
    (hkind : t.kind = .returnWord) (ht : s₀.Takes [t] s) :
    Yields (returnRest E t.span.first) s (StmtTaken s₀) := by
  refine yields_then yields_onSameLine fun sameLine s₁ hs₁ => ?_
  obtain ⟨rfl, t₁, ht₁, rfl⟩ := hs₁
  refine yields_then yields_peek fun t₂ s₂ hs₂ => ?_
  obtain ⟨rfl, ht₂⟩ := hs₂
  obtain rfl := peek_unique ht₁ ht₂
  have hlast : s₂.last = t.span.last := ht.last
  have hwants : (t₁.span.first.line == s₂.last.line && t₁.kind != .rightBrace &&
      t₁.kind != .eof) = true ↔ WantsValue t t₁ := by
    simp [WantsValue, hlast, and_assoc]
  split
  next hvalue =>
    refine yields_then (hE 0 (Nat.zero_le 5) s₂) fun e s₃ he => ?_
    obtain ⟨us, hus, he, hquiet⟩ := he
    refine yields_span ⟨t :: us, ht.cons hus, by simp, fun next hnext => ?_⟩
    have hends := ends_of_quiet hus he.expr_ne_nil hquiet hnext
    rw [hus.last_eq he.expr_ne_nil]
    refine .returnValue hkind ?_ he hends
    obtain ⟨t₃, us, rfl⟩ := List.exists_cons_of_ne_nil he.expr_ne_nil
    obtain rfl := peek_unique ht₁ hus.peek
    exact hwants.mp hvalue
  next hunit =>
    refine yields_span ⟨[t], ht, by simp, fun next hnext => ?_⟩
    obtain rfl := peek_unique ht₁ hnext
    rw [hlast]
    exact .returnUnit hkind fun h => hunit (hwants.mpr h)

/-- A condition and its block, after a word. -/
theorem sound_guarded (hE : SoundExpr E) (hB : Sound B fun b ts => Derives (.block b) ts)
    {make : Expr → Block → Span → Stmt} {s₀ s : Input} {t : Token} (ht : s₀.Takes [t] s)
    (hmake : ∀ {e b ts us} (next : Token), Derives (.expr 0 e) ts → Derives (.block b) us →
      Derives (.stmt (make e b ⟨t.span.first, endOf us⟩) next) (t :: (ts ++ us))) :
    Yields (guarded E B t.span.first make) s (StmtTaken s₀) := by
  refine yields_then (hE 0 (Nat.zero_le 5) s) fun e s₁ he => ?_
  obtain ⟨ts, hts, he, -⟩ := he
  refine yields_then (hB s₁) fun b s₂ hb => ?_
  obtain ⟨us, hus, hb⟩ := hb
  refine yields_span ⟨t :: (ts ++ us), ht.cons (hts.trans hus), by simp, fun next _ => ?_⟩
  rw [hus.last_eq hb.block_ne_nil]
  exact hmake next he hb

theorem sound_stmtOf (hE : SoundExpr E) (hB : Sound B fun b ts => Derives (.block b) ts) (n : Nat)
    (s : Input) : Yields (stmtOf E B n) s (StmtTaken s) := by
  refine yields_then yields_peek fun t s₁ hs₁ => ?_
  obtain ⟨rfl, ht⟩ := hs₁
  have hnext : t.kind ≠ .eof → Yields next s₁ fun t' s' => t' = t ∧ s₁.Takes [t] s' :=
    yields_next_of_peek ht
  split
  next hk =>
    refine yields_then (hnext (by rw [hk]; exact Kind.noConfusion)) fun t' s₂ ht₂ => ?_
    obtain ⟨rfl, ht₂⟩ := ht₂
    refine yields_then yields_ident fun x s₃ hx => ?_
    obtain ⟨t₃, hx, ht₃⟩ := hx
    refine yields_then (yields_expect_one Kind.noConfusion) fun o s₄ ho => ?_
    refine yields_then (hE 0 (Nat.zero_le 5) s₄) fun e s₅ he => ?_
    obtain ⟨ts, hts, he, hquiet⟩ := he
    refine yields_span ⟨t' :: t₃ :: o :: ts, ht₂.cons (ht₃.cons (ho.2.cons hts)), by simp, ?_⟩
    intro next hnext
    rw [hts.last_eq he.expr_ne_nil]
    exact .letIn hk hx ho.1 he (ends_of_quiet hts he.expr_ne_nil hquiet hnext)
  next hk => exact sound_fnStmt hE hB n ht hk
  next hk =>
    refine yields_then (hnext (by rw [hk]; exact Kind.noConfusion)) fun t' s₂ ht₂ => ?_
    obtain ⟨rfl, ht₂⟩ := ht₂
    exact sound_guarded hE hB ht₂ fun next he hb => .ifThen next hk he hb
  next hk =>
    refine yields_then (hnext (by rw [hk]; exact Kind.noConfusion)) fun t' s₂ ht₂ => ?_
    obtain ⟨rfl, ht₂⟩ := ht₂
    exact sound_guarded hE hB ht₂ fun next he hb => .whileDo next hk he hb
  next hk =>
    refine yields_then (hnext (by rw [hk]; exact Kind.noConfusion)) fun t' s₂ ht₂ => ?_
    obtain ⟨rfl, ht₂⟩ := ht₂
    exact sound_returnRest hE hk ht₂
  next hk =>
    refine yields_then (hnext (by rw [hk]; exact Kind.noConfusion)) fun t' s₂ ht₂ => ?_
    obtain ⟨rfl, ht₂⟩ := ht₂
    exact yields_pure ⟨[t'], ht₂, by simp, fun next _ => .breakOut next hk⟩
  next =>
    refine yields_then (hE 0 (Nat.zero_le 5) s₁) fun e s₂ he => ?_
    obtain ⟨ts, hts, he, hquiet⟩ := he
    refine yields_span ⟨ts, hts, he.expr_ne_nil, fun next hnext => ?_⟩
    obtain ⟨t', ts, rfl⟩ := List.exists_cons_of_ne_nil he.expr_ne_nil
    obtain rfl := peek_unique ht hts.peek
    rw [hts.last_eq he.expr_ne_nil]
    exact .expr he (ends_of_quiet hts he.expr_ne_nil hquiet hnext)

end

/-! ## Blocks and programs -/

section
variable {p : Parser Stmt}

/-- Statements up to a brace are followed by it. -/
theorem sound_stmtsToBrace (hp : ∀ s, Yields p s (StmtTaken s)) : (n : Nat) → (s : Input) →
    Yields (stmtsToBrace p n) s fun b s' => ∃ ts c, s.Takes (ts ++ [c]) s' ∧
      c.kind = .rightBrace ∧ Derives (.stmts b c) ts
  | 0, _ => yields_exhausted
  | n + 1, s => by
      refine yields_then yields_peek fun t s₁ hs₁ => ?_
      obtain ⟨rfl, ht⟩ := hs₁
      split
      next hk =>
        refine yields_then (yields_next_of_peek ht (by rw [hk]; exact Kind.noConfusion))
          fun t' s₂ ht₂ => ?_
        exact yields_pure ⟨[], t, ht₂.2, hk, .noStmts t⟩
      next =>
        split
        · exact yields_raise
        · refine yields_then (hp s₁) fun st s₂ hst => ?_
          obtain ⟨ts, hts, -, hst⟩ := hst
          refine yields_then (sound_stmtsToBrace hp n s₂) fun b s₃ hb => ?_
          obtain ⟨us, c, hus, hc, hb⟩ := hb
          refine yields_pure ⟨ts ++ us, c, ?_, hc, .moreStmts (hst _ ?_) hb⟩
          · rw [List.append_assoc]
            exact hts.trans hus
          · cases us with
            | nil => exact hus.peek
            | cons t' us => exact hus.peek

theorem sound_blockOf (hp : ∀ s, Yields p s (StmtTaken s)) (n : Nat) :
    Sound (blockOf p n) fun b ts => Derives (.block b) ts := by
  intro s
  refine yields_then (yields_expect_one Kind.noConfusion) fun o s₁ ho => ?_
  refine (sound_stmtsToBrace hp n s₁).mono fun b s₂ hb => ?_
  obtain ⟨ts, c, hts, hc, hb⟩ := hb
  exact ⟨o :: (ts ++ [c]), ho.2.cons hts, .block ho.1 hb hc⟩

/-- Statements up to the end are followed by it. -/
theorem sound_stmtsToEnd (hp : ∀ s, Yields p s (StmtTaken s)) : (n : Nat) → (s : Input) →
    Yields (stmtsToEnd p n) s fun P s' => ∃ ts next, s.Takes ts s' ∧ peek s' = .done next s' ∧
      next.kind = .eof ∧ Derives (.stmts P next) ts
  | 0, _ => yields_exhausted
  | n + 1, s => by
      refine yields_then yields_peek fun t s₁ hs₁ => ?_
      obtain ⟨rfl, ht⟩ := hs₁
      split
      next hk => exact yields_pure ⟨[], t, .refl s₁, ht, hk, .noStmts t⟩
      next =>
        refine yields_then (hp s₁) fun st s₂ hst => ?_
        obtain ⟨ts, hts, -, hst⟩ := hst
        refine yields_then (sound_stmtsToEnd hp n s₂) fun P s₃ hP => ?_
        obtain ⟨us, next, hus, hpeek, hk, hP⟩ := hP
        refine yields_pure ⟨ts ++ us, next, hts.trans hus, hpeek, hk, .moreStmts (hst _ ?_) hP⟩
        cases us with
        | nil =>
            -- nothing was taken, so that the end is next already
            obtain rfl := hus.eq_of_nil
            exact hpeek
        | cons t' us => exact hus.peek

end

/-- Expressions and blocks of any nesting are sound. -/
theorem sound_knot : (n : Nat) →
    SoundExpr (expr n) ∧ Sound (block n) fun b ts => Derives (.block b) ts
  | 0 => ⟨fun _ _ _ => yields_exhausted, fun _ => yields_exhausted⟩
  | n + 1 => by
      obtain ⟨hE, hB⟩ := sound_knot n
      refine ⟨fun k hk s => ?_, fun s => ?_⟩
      · rw [expr]
        exact sound_exprOf hE hB n k hk s
      · rw [block]
        exact sound_blockOf (sound_stmtOf hE hB n) n s

/-- A program that is read from tokens derives from them, and they come to their end without a
fault. -/
theorem derives_of_program {n : Nat} {ts : List Token} {stop : Except ScanFault Position}
    {last : Position} {P : Program} {s' : Input} (hts : ∀ t ∈ ts, t.kind ≠ .eof)
    (h : program n ⟨ts, stop, last⟩ = .done P s') :
    ∃ p, stop = .ok p ∧ Derives (.stmts P (.endAt p)) ts := by
  have hstmt : ∀ s, Yields (stmtOf (expr n) (block n) n) s (StmtTaken s) :=
    sound_stmtOf (sound_knot n).1 (sound_knot n).2 n
  obtain ⟨us, next, hus, hpeek, hkind, hP⟩ := sound_stmtsToEnd hstmt n _ P s' h
  have htokens : ts = us ++ s'.tokens := hus.tokens
  unfold peek at hpeek
  -- no token is left, as none is the end
  cases hrest : s'.tokens with
  | nil =>
      rw [hrest, List.append_nil] at htokens
      rw [hrest, hus.stop] at hpeek
      cases stop with
      | error e => exact nomatch hpeek
      | ok p =>
          obtain ⟨rfl, -⟩ := Reply.done.inj hpeek
          rw [htokens]
          exact ⟨p, rfl, hP⟩
  | cons t rest =>
      rw [hrest] at hpeek
      obtain ⟨rfl, -⟩ := Reply.done.inj hpeek
      refine absurd hkind (hts t ?_)
      rw [htokens, hrest]
      simp

end Parser

end HamScript
