/-
# What is derived is parsed

Every derivation is followed by the parser, token by token.  An expression cannot be said to be read
to its end, because the loop that reads it may go on; so a derivation of an expression is shown to
bring the parser from the front of the tokens to the loop over continuations behind them, with the
expression in hand.  Where nothing can go on, the loop stops and the expression is done.
-/
import HamScript.Proofs.Syntax.Bounds
import HamScript.Proofs.Syntax.Sound

namespace HamScript

open Grammar
open Parsing
open Source (Position Span)

/-! ## How phrases begin -/

namespace Grammar

/-- The kinds of tokens that an expression can begin with. -/
def starters : List Kind :=
  [.int, .float, .string, .trueWord, .falseWord, .ident, .ampersand, .leftParen, .fnWord, .minus]

/-- The tokens begin like an expression; after `fn` comes a parenthesis. -/
def BeginsExpr (ts : List Token) : Prop :=
  ∃ t us, ts = t :: us ∧ t.kind ∈ starters ∧
    (t.kind = .fnWord → ∃ o vs, us = o :: vs ∧ o.kind = .leftParen)

theorem BeginsExpr.append {ts : List Token} (h : BeginsExpr ts) (us : List Token) :
    BeginsExpr (ts ++ us) := by
  obtain ⟨t, rest, rfl, hkind, hfn⟩ := h
  refine ⟨t, rest ++ us, rfl, hkind, fun hk => ?_⟩
  obtain ⟨o, vs, rfl, ho⟩ := hfn hk
  exact ⟨o, vs ++ us, rfl, ho⟩

theorem beginsExpr_of_kind {t : Token} {kind : Kind} (h : t.kind = kind) (hmem : kind ∈ starters)
    (hfn : kind ≠ .fnWord) (us : List Token) : BeginsExpr (t :: us) :=
  ⟨t, us, rfl, h ▸ hmem, fun hk => absurd (h ▸ hk) hfn⟩

theorem Derives.beginsExpr {φ : Phrase} {ts : List Token} (h : Derives φ ts) {tier : Nat} {e : Expr}
    (hφ : φ = .expr tier e) : BeginsExpr ts := by
  induction h generalizing tier e with
  | int hk | float hk | string hk | truth hk | falsity hk | ref hk | paren hk | negate hk =>
      exact beginsExpr_of_kind hk (by decide) (by decide) _
  | var hx => exact beginsExpr_of_kind hx.1 (by decide) (by decide) _
  | fn hk hxs =>
      obtain ⟨o, us, rfl, ho, -⟩ := hxs
      exact ⟨_, _, rfl, hk ▸ by decide, fun _ => ⟨o, _, rfl, ho⟩⟩
  | call hl ho hline hes ihl => exact (ihl rfl).append _
  | method hl hd hline hx ho hes ihl => exact (ihl rfl).append _
  | binary hl ho hline hr ihl => exact (ihl rfl).append _
  | assign hl hx ho hline hv ihl => exact (ihl rfl).append _
  | up h ih => exact ih rfl
  | _ => exact nomatch hφ

/-- A statement begins with neither the end of a block nor the end of the source. -/
theorem Derives.stmt_head {s : Stmt} {next : Token} {ts : List Token}
    (h : Derives (.stmt s next) ts) :
    ∃ t us, ts = t :: us ∧ t.kind ≠ .rightBrace ∧ t.kind ≠ .eof := by
  have hword : ∀ {t : Token} {kind : Kind}, t.kind = kind → kind ≠ .rightBrace → kind ≠ .eof →
      ∀ us, ∃ t' us', t :: us = t' :: us' ∧ t'.kind ≠ .rightBrace ∧ t'.kind ≠ .eof :=
    fun hk h₁ h₂ us => ⟨_, us, rfl, hk ▸ h₁, hk ▸ h₂⟩
  cases h with
  | letIn hk | fnDecl _ hk | ifThen _ hk | whileDo _ hk | returnUnit hk | returnValue hk
  | breakOut _ hk => exact hword hk (by decide) (by decide) _
  | expr he =>
      obtain ⟨t, us, rfl, hkind, -⟩ := he.beginsExpr rfl
      have hall : ∀ k ∈ starters, k ≠ .rightBrace ∧ k ≠ .eof := by decide
      exact ⟨t, us, rfl, hall _ hkind⟩

theorem Derives.block_head {b : Block} {ts : List Token} (h : Derives (.block b) ts) :
    ∃ o us, ts = o :: us ∧ o.kind = .leftBrace := by
  cases h with
  | block ho => exact ⟨_, _, rfl, ho⟩

end Grammar

/-! ## Following a parser -/

namespace Parser

/-- Reading with `p` from `s` comes to reading with `q` from `s'`. -/
def Steps {α : Type} (p : Parser α) (s : Input) (q : Parser α) (s' : Input) : Prop :=
  p s = q s'

section
variable {α β : Type} {s s₁ s₂ : Input}

theorem Steps.trans {p q r : Parser α} (h₁ : Steps p s q s₁) (h₂ : Steps q s₁ r s₂) :
    Steps p s r s₂ :=
  Eq.trans h₁ h₂

theorem Steps.symm {p q : Parser α} (h : Steps p s q s₁) : Steps q s₁ p s :=
  Eq.symm h

/-- A step that is done, and what follows it. -/
theorem Steps.next {p : Parser β} {f : β → Parser α} {b : β} {q : Parser α}
    (h : Steps p s (pure b) s₁) (hf : Steps (f b) s₁ q s₂) : Steps (p >>= f) s q s₂ := by
  change Parser.bind p f s = q s₂
  unfold Parser.bind
  rw [show p s = .done b s₁ from h]
  exact hf

/-- Reading goes on alike after alike steps. -/
theorem Steps.bind {p q : Parser β} (h : Steps p s q s₁) (f : β → Parser α) :
    Steps (p >>= f) s (q >>= f) s₁ := by
  change Parser.bind p f s = Parser.bind q f s₁
  unfold Parser.bind
  rw [show p s = q s₁ from h]

theorem steps_assoc {γ : Type} (p : Parser γ) (f : γ → Parser β) (g : β → Parser α) (s : Input) :
    Steps (p >>= f >>= g) s (p >>= fun c => f c >>= g) s := by
  change Parser.bind (Parser.bind p f) g s = Parser.bind p (fun c => Parser.bind (f c) g) s
  unfold Parser.bind
  cases p s <;> rfl

theorem steps_bind_pure (p : Parser α) (s : Input) : Steps (p >>= pure) s p s := by
  change Parser.bind p Parser.pure s = p s
  unfold Parser.bind
  cases p s <;> rfl

end

section
variable {t : Token} {ts : List Token} {stop : Except ScanFault Position} {last : Position}

theorem steps_peek : Steps peek ⟨t :: ts, stop, last⟩ (pure t) ⟨t :: ts, stop, last⟩ := rfl

theorem steps_next : Steps next ⟨t :: ts, stop, last⟩ (pure t) ⟨ts, stop, t.span.last⟩ := rfl

theorem steps_peekIs (kind : Kind) : Steps (peekIs kind) ⟨t :: ts, stop, last⟩
    (pure (t.kind == kind)) ⟨t :: ts, stop, last⟩ := rfl

theorem steps_expect {kinds : List Kind} (h : t.kind ∈ kinds) :
    Steps (expect kinds) ⟨t :: ts, stop, last⟩ (pure t) ⟨ts, stop, t.span.last⟩ := by
  refine steps_next.next ?_
  rw [if_pos (List.contains_iff_mem.mpr h)]
  rfl

theorem steps_expect_one {kind : Kind} (h : t.kind = kind) :
    Steps (expect [kind]) ⟨t :: ts, stop, last⟩ (pure t) ⟨ts, stop, t.span.last⟩ :=
  steps_expect (List.mem_singleton.mpr h)

theorem steps_ident {x : Ident} (h : IsName t x) :
    Steps ident ⟨t :: ts, stop, last⟩ (pure x) ⟨ts, stop, t.span.last⟩ := by
  obtain ⟨hkind, rfl⟩ := h
  exact (steps_expect_one hkind).next rfl

theorem steps_onSameLine {s : Input} (ht : peek s = .done t s) :
    Steps onSameLine s (pure (t.span.first.line == s.last.line)) s := by
  show onSameLine s = .done (t.span.first.line == s.last.line) s
  unfold onSameLine
  rw [ht]

/-- The end of a parser that has read all its parts. -/
theorem steps_span {α : Type} (first : Position) (make : Span → α) (s : Input) :
    Steps (do let span ← spanFrom first; return make span) s (pure (make ⟨first, s.last⟩)) s := rfl

end

/-! ## Lists -/

theorem steps_commaList {α : Type} {p : Parser α} {Item : α → List Token → Prop}
    (hhead : ∀ {a ts}, Item a ts → ∃ t us, ts = t :: us ∧ t.kind ≠ .rightParen)
    (hitem : ∀ {a ts} (c : Token) (rest : List Token) (stop : Except ScanFault Position)
      (last : Position), Item a ts → c.kind = .comma ∨ c.kind = .rightParen →
      Steps p ⟨ts ++ c :: rest, stop, last⟩ (pure a) ⟨c :: rest, stop, endOf ts⟩)
    {as : List α} {ts : List Token} (h : CommaList Item as ts) :
    ∀ (n : Nat) (rest : List Token) (stop : Except ScanFault Position) (last : Position),
      ts.length < n →
      Steps (commaList p n) ⟨ts ++ rest, stop, last⟩ (pure as) ⟨rest, stop, endOf ts⟩ := by
  -- an item is not taken for the closing parenthesis
  have hopen : ∀ {a ts} (us : List Token) (stop : Except ScanFault Position) (last : Position),
      Item a ts → Steps (peekIs .rightParen) ⟨ts ++ us, stop, last⟩ (pure false)
        ⟨ts ++ us, stop, last⟩ := by
    intro a ts us stop last ha
    obtain ⟨t, ts, rfl, hkind⟩ := hhead ha
    have hfalse : (t.kind == .rightParen) = false := beq_eq_false_iff_ne.mpr hkind
    rw [← hfalse]
    exact steps_peekIs .rightParen
  induction h with
  | @none c hc =>
      intro n rest stop last hn
      obtain ⟨n, rfl⟩ := Nat.exists_eq_succ_of_ne_zero (Nat.ne_of_gt (Nat.zero_lt_of_lt hn))
      refine (steps_peekIs .rightParen).next ?_
      rw [hc, if_pos (beq_self_eq_true _)]
      exact (steps_expect_one hc).next rfl
  | @one a ts c ha hc =>
      intro n rest stop last hn
      obtain ⟨n, rfl⟩ := Nat.exists_eq_succ_of_ne_zero (Nat.ne_of_gt (Nat.zero_lt_of_lt hn))
      rw [List.append_assoc]
      refine (hopen _ stop last ha).next ?_
      rw [if_neg Bool.false_ne_true]
      refine (hitem c rest stop last ha (.inr hc)).next ?_
      refine (steps_peekIs .rightParen).next ?_
      rw [hc, if_pos (beq_self_eq_true _)]
      refine (steps_expect_one hc).next ?_
      rw [endOf_append ts (List.cons_ne_nil c [])]
      rfl
  | @more a as ts us c ha hc has ih =>
      intro n rest stop last hn
      obtain ⟨n, rfl⟩ := Nat.exists_eq_succ_of_ne_zero (Nat.ne_of_gt (Nat.zero_lt_of_lt hn))
      have hlength : us.length < n := by
        rw [List.length_append, List.length_cons] at hn
        omega
      rw [List.append_assoc]
      refine (hopen _ stop last ha).next ?_
      rw [if_neg Bool.false_ne_true]
      refine (hitem c (us ++ rest) stop last ha (.inl hc)).next ?_
      refine (steps_peekIs .rightParen).next ?_
      rw [hc, if_neg (by decide)]
      refine (steps_expect (by rw [hc]; decide)).next ?_
      refine (ih n rest stop c.span.last hlength).next ?_
      rw [endOf_append ts (List.cons_ne_nil c us), endOf_cons c has.ne_nil]
      rfl

theorem steps_params {xs : List Ident} {ts : List Token} (h : Params xs ts) (n : Nat)
    (rest : List Token) (stop : Except ScanFault Position) (last : Position) (hn : ts.length ≤ n) :
    Steps (params n) ⟨ts ++ rest, stop, last⟩ (pure xs) ⟨rest, stop, endOf ts⟩ := by
  obtain ⟨o, us, rfl, ho, hxs⟩ := h
  refine (steps_expect_one ho).next ?_
  rw [endOf_cons o hxs.ne_nil]
  refine steps_commaList ?_ ?_ hxs n rest stop o.span.last hn
  · rintro x _ ⟨t, rfl, hx⟩
    exact ⟨t, [], rfl, by rw [hx.1]; exact Kind.noConfusion⟩
  · rintro x _ c rest stop last ⟨t, rfl, hx⟩ -
    exact steps_ident hx

/-! ## The loop over continuations -/

/-- There is a next token, and it does not go on with an expression that binds by `strength`. -/
def Calm (strength : Nat) (s : Input) : Prop :=
  (∃ t, peek s = .done t s) ∧ Quiet strength s

theorem Calm.mono {k k' : Nat} {s : Input} (h : Calm k s) (hk : k ≤ k') : Calm k' s :=
  ⟨h.1, h.2.mono hk⟩

section
variable {t : Token} {us : List Token} {stop : Except ScanFault Position} {last : Position}

theorem calm_of_firstKind {c : Continuation} {k : Nat} (ht : t.kind = c.firstKind)
    (hk : c.strength ≤ k) : Calm k ⟨t :: us, stop, last⟩ := by
  refine ⟨⟨t, rfl⟩, fun t' ht' c' hc' hlt => ?_⟩
  obtain rfl : t = t' := peek_unique rfl ht'
  have hc := Continuation.ofKind?_eq_some_iff.mpr ht
  obtain rfl := Option.some.inj (hc.symm.trans hc')
  exact absurd hlt (Nat.not_lt.mpr hk)

theorem calm_of_not_link (ht : t.kind ∉ links) (k : Nat) : Calm k ⟨t :: us, stop, last⟩ := by
  refine ⟨⟨t, rfl⟩, fun t' ht' c hc _ => ?_⟩
  obtain rfl : t = t' := peek_unique rfl ht'
  rw [Continuation.ofKind?_eq_some_iff.mp hc] at ht
  exact absurd c.firstKind_mem_links ht

end

/-- Where nothing goes on with the expression, the loop stops. -/
theorem Calm.continueFrom_eq {E : Nat → Parser Expr} {k n : Nat} {s : Input} (h : Calm k s)
    (hn : 0 < n) (left : Expr) : Steps (continueFrom E k n left) s (pure left) s := by
  obtain ⟨⟨t, ht⟩, hquiet⟩ := h
  obtain ⟨n, rfl⟩ := Nat.exists_eq_succ_of_ne_zero (Nat.ne_of_gt hn)
  refine Steps.next (p := peek) ht ?_
  split
  next => rfl
  next c hc =>
    split
    next => rfl
    next hlt =>
      have hline := hquiet t ht c hc (Nat.lt_of_not_le hlt)
      refine (steps_onSameLine ht).next ?_
      rw [if_neg fun h => hline (beq_iff_eq.mp h)]
      rfl

/-- A token that goes on with the expression is taken, and its continuation read. -/
theorem continueFrom_step {E : Nat → Parser Expr} {k n : Nat} {left longer : Expr} {t : Token}
    {c : Continuation} {us : List Token} {stop : Except ScanFault Position} {last : Position}
    {s' : Input} (ht : t.kind = c.firstKind) (hk : k < c.strength)
    (hline : t.span.first.line = last.line)
    (hlonger : Steps (continuation E n left c) ⟨us, stop, t.span.last⟩ (pure longer) s') :
    Steps (continueFrom E k (n + 1) left) ⟨t :: us, stop, last⟩ (continueFrom E k n longer) s' := by
  refine steps_peek.next ?_
  rw [Continuation.ofKind?_eq_some_iff.mpr ht]
  show Steps (if c.strength ≤ k then _ else _) _ _ _
  rw [if_neg (Nat.not_le.mpr hk)]
  refine (steps_onSameLine rfl).next ?_
  rw [if_pos (beq_iff_eq.mpr hline)]
  exact steps_next.next (hlonger.next rfl)

/-! ## Expressions -/

/-- With the tokens `ts` in front, the parsers for expressions come to the loop behind them, with
`e` in hand. -/
def Reached (tier : Nat) (e : Expr) (ts : List Token) : Prop :=
  ∀ (k n : Nat) (rest : List Token) (stop : Except ScanFault Position) (last : Position),
    k ≤ 5 → min k 4 ≤ tier → Calm (room tier) ⟨rest, stop, endOf ts⟩ → rest.length < n →
    Steps (wholeExpr k) ⟨ts ++ rest, stop, last⟩ (continueFrom wholeExpr k n e)
      ⟨rest, stop, endOf ts⟩

section
variable {tier : Nat} {e : Expr} {ts : List Token}

/-- Where nothing can go on, the expression is done. -/
theorem Reached.done (h : Reached tier e ts) {k : Nat} {rest : List Token}
    {stop : Except ScanFault Position} (last : Position) (hk : k ≤ 5) (htier : min k 4 ≤ tier)
    (hroom : k ≤ room tier) (hcalm : Calm k ⟨rest, stop, endOf ts⟩) :
    Steps (wholeExpr k) ⟨ts ++ rest, stop, last⟩ (pure e) ⟨rest, stop, endOf ts⟩ :=
  (h k _ rest stop last hk htier (hcalm.mono hroom) (Nat.lt_succ_self _)).trans
    (hcalm.continueFrom_eq (Nat.succ_pos _) e)

theorem Reached.done_loosest (h : Reached 0 e ts) {rest : List Token}
    {stop : Except ScanFault Position} (last : Position)
    (hcalm : Calm 0 ⟨rest, stop, endOf ts⟩) :
    Steps (wholeExpr loosest) ⟨ts ++ rest, stop, last⟩ (pure e) ⟨rest, stop, endOf ts⟩ :=
  h.done last (Nat.zero_le 5) (Nat.le_refl 0) (Nat.zero_le _) hcalm

/-- What is read before the first continuation leads to the loop. -/
theorem reached_of_primary (hne : ts ≠ [])
    (h : ∀ (n : Nat) (rest : List Token) (stop : Except ScanFault Position) (last : Position),
      (ts ++ rest).length ≤ n → Calm (room tier) ⟨rest, stop, endOf ts⟩ →
      Steps (primary wholeExpr wholeBlock n) ⟨ts ++ rest, stop, last⟩ (pure e)
        ⟨rest, stop, endOf ts⟩) :
    Reached tier e ts := by
  intro k n rest stop last _ _ hcalm hn
  have hwhole : Steps (wholeExpr k) ⟨ts ++ rest, stop, last⟩
      (exprOf wholeExpr wholeBlock (ts ++ rest).length k) ⟨ts ++ rest, stop, last⟩ :=
    wholeExpr_eq (Nat.le_refl _) k
  refine hwhole.trans ((h _ rest stop last (Nat.le_refl _) hcalm).next ?_)
  refine continueFrom_bound ?_ hn k e
  have hpos := List.length_pos_iff.mpr hne
  rw [List.length_append]
  exact Nat.lt_add_of_pos_left hpos

/-- A token that goes on with an expression leads from the loop back to the loop. -/
theorem Reached.step {left longer : Expr} {ls us : List Token} {t : Token} {c : Continuation}
    {tier' : Nat} (hleft : Reached tier left ls) (ht : t.kind = c.firstKind)
    (hline : Adjoins ls t) (hroom : c.strength ≤ room tier) (htier : tier' ≤ tier)
    (hstrength : ∀ {k}, k ≤ 5 → min k 4 ≤ tier' → k < c.strength) (hne : us ≠ [])
    (hlonger : ∀ (n : Nat) (rest : List Token) (stop : Except ScanFault Position),
      (us ++ rest).length < n → Calm (room tier') ⟨rest, stop, endOf us⟩ →
      Steps (continuation wholeExpr n left c) ⟨us ++ rest, stop, t.span.last⟩ (pure longer)
        ⟨rest, stop, endOf us⟩) :
    Reached tier' longer (ls ++ t :: us) := by
  intro k n rest stop last hk hmin hcalm hn
  rw [endOf_append ls (List.cons_ne_nil t us), endOf_cons t hne] at hcalm ⊢
  have hsource : ls ++ t :: us ++ rest = ls ++ t :: (us ++ rest) := by simp
  rw [hsource]
  refine (hleft k ((us ++ rest).length + 1 + 1) (t :: (us ++ rest)) stop last hk
    (Nat.le_trans hmin htier) (calm_of_firstKind ht hroom) (Nat.lt_succ_self _)).trans ?_
  refine (continueFrom_step ht (hstrength hk hmin) hline
    (hlonger _ rest stop (Nat.lt_succ_self _) hcalm)).trans ?_
  refine continueFrom_bound ?_ hn k longer
  show rest.length < (us ++ rest).length + 1
  rw [List.length_append]
  omega

end

theorem steps_args {es : List Expr} {ts : List Token}
    (h : CommaList (fun e us => BeginsExpr us ∧ Reached 0 e us) es ts) {n : Nat}
    (rest : List Token) (stop : Except ScanFault Position) (last : Position) (hn : ts.length < n) :
    Steps (commaList (wholeExpr loosest) n) ⟨ts ++ rest, stop, last⟩ (pure es)
      ⟨rest, stop, endOf ts⟩ := by
  refine steps_commaList ?_ ?_ h n rest stop last hn
  · rintro e us ⟨⟨t, vs, rfl, hkind, -⟩, -⟩
    have hall : ∀ k ∈ starters, k ≠ .rightParen := by decide
    exact ⟨t, vs, rfl, hall _ hkind⟩
  · rintro e us c rest stop last ⟨-, he⟩ hc
    refine he.done_loosest last (calm_of_not_link ?_ 0)
    rcases hc with hc | hc <;> rw [hc] <;> decide

/-! ## Statements -/

theorem calm_of_ends {ts : List Token} {next : Token} {rest : List Token}
    {stop : Except ScanFault Position}
    (hnext : peek ⟨rest, stop, endOf ts⟩ = .done next ⟨rest, stop, endOf ts⟩)
    (hends : Ends ts next) : Calm 0 ⟨rest, stop, endOf ts⟩ := by
  refine ⟨⟨next, hnext⟩, fun t ht c hc _ hline => ?_⟩
  obtain rfl := peek_unique hnext ht
  refine hends ?_ hline
  rw [Continuation.ofKind?_eq_some_iff.mp hc]
  exact c.firstKind_mem_links

section
variable {t : Token} {us : List Token} {stop : Except ScanFault Position} {last : Position}
  {n : Nat}

/-- A statement that begins like an expression is one, or a function with a name. -/
theorem steps_stmtOf_expr (hbegins : BeginsExpr (t :: us)) (hn : (t :: us).length ≤ n) :
    Steps (stmtOf wholeExpr wholeBlock n) ⟨t :: us, stop, last⟩ (do
      let value ← wholeExpr loosest
      let span ← spanFrom t.span.first
      return Stmt.expr value span) ⟨t :: us, stop, last⟩ := by
  obtain ⟨t', us', heq, hkind, hfn⟩ := hbegins
  obtain ⟨rfl, rfl⟩ := List.cons.inj heq
  refine steps_peek.next ?_
  simp only [starters, List.mem_cons, List.not_mem_nil, or_false] at hkind
  rcases hkind with hk | hk | hk | hk | hk | hk | hk | hk | hk | hk
  case inr.inr.inr.inr.inr.inr.inr.inr.inl =>
    rw [hk]
    obtain ⟨o, vs, rfl, ho⟩ := hfn hk
    have hwhole : Steps (wholeExpr loosest) ⟨t :: o :: vs, stop, last⟩
        (exprOf wholeExpr wholeBlock n loosest) ⟨t :: o :: vs, stop, last⟩ := wholeExpr_eq hn _
    refine Steps.trans ?_ (hwhole.bind _).symm
    -- both sides come to the rest of the function
    have hprimary : Steps (primary wholeExpr wholeBlock n) ⟨t :: o :: vs, stop, last⟩
        (fnRest wholeBlock n t.span.first) ⟨o :: vs, stop, t.span.last⟩ := by
      refine steps_next.next ?_
      rw [hk]
      rfl
    have hstmt : Steps (fnStmt wholeExpr wholeBlock n) ⟨t :: o :: vs, stop, last⟩ (do
        let left ← fnRest wholeBlock n t.span.first
        let value ← continueFrom wholeExpr loosest n left
        let span ← spanFrom t.span.first
        return Stmt.expr value span) ⟨o :: vs, stop, t.span.last⟩ := by
      refine steps_next.next ((steps_peekIs .ident).next ?_)
      rw [ho]
      rfl
    exact hstmt.trans (((steps_assoc _ _ _ _).trans (hprimary.bind _)).symm)
  all_goals rw [hk]; rfl

end

/-- The parser for expressions and blocks follows the derivation of a phrase from `ts`. -/
def Followed : Phrase → List Token → Prop
  | .expr tier e, ts => Reached tier e ts
  | .args es, ts => CommaList (fun e us => BeginsExpr us ∧ Reached 0 e us) es ts
  | .block b, ts =>
    ∀ rest stop last, Steps wholeBlock ⟨ts ++ rest, stop, last⟩ (pure b) ⟨rest, stop, endOf ts⟩
  | .stmt s next, ts =>
    ∀ n rest stop last, (ts ++ rest).length < n →
      peek ⟨rest, stop, endOf ts⟩ = .done next ⟨rest, stop, endOf ts⟩ →
      Steps (stmtOf wholeExpr wholeBlock n) ⟨ts ++ rest, stop, last⟩ (pure s) ⟨rest, stop, endOf ts⟩
  | .stmts b next, ts =>
    next.kind = .rightBrace → ∀ n m rest stop last, (ts ++ next :: rest).length < n →
      ts.length < m →
      Steps (stmtsToBrace (stmtOf wholeExpr wholeBlock n) m) ⟨ts ++ next :: rest, stop, last⟩
        (pure b) ⟨rest, stop, next.span.last⟩

section
variable {k : Token} {e : Expr} {ts : List Token}

/-- The rest of a function after the word `fn`. -/
theorem steps_fnRest {xs : List Ident} {b : Block} {us vs : List Token} (hxs : Params xs us)
    (hb : Followed (.block b) vs) {n : Nat}
    (first : Position) (rest : List Token) (stop : Except ScanFault Position) (last : Position)
    (hn : (us ++ vs).length ≤ n) :
    Steps (fnRest wholeBlock n first) ⟨us ++ vs ++ rest, stop, last⟩
      (pure (.fn xs b ⟨first, endOf vs⟩)) ⟨rest, stop, endOf vs⟩ := by
  rw [List.length_append] at hn
  rw [List.append_assoc]
  refine (steps_params hxs n (vs ++ rest) stop last (by omega)).next ?_
  exact (hb rest stop (endOf us)).next (steps_span first _ _)

/-- A condition and its block after a word. -/
theorem steps_guarded {b : Block} {us : List Token} (he : Followed (.expr 0 e) ts)
    (hbegin : ∃ o vs, us = o :: vs ∧ o.kind = .leftBrace) (hb : Followed (.block b) us)
    (make : Expr → Block → Span → Stmt) (first : Position) (rest : List Token)
    (stop : Except ScanFault Position) (last : Position) :
    Steps (guarded wholeExpr wholeBlock first make) ⟨ts ++ us ++ rest, stop, last⟩
      (pure (make e b ⟨first, endOf us⟩)) ⟨rest, stop, endOf us⟩ := by
  obtain ⟨o, vs, rfl, ho⟩ := hbegin
  rw [List.append_assoc]
  have hcalm : Calm 0 ⟨o :: vs ++ rest, stop, endOf ts⟩ :=
    calm_of_not_link (by rw [ho]; decide) 0
  refine (he.done_loosest last hcalm).next ?_
  exact (hb rest stop (endOf ts)).next (steps_span first _ _)

end

theorem wantsValue_iff {t next : Token} : (next.span.first.line == t.span.last.line &&
    next.kind != .rightBrace && next.kind != .eof) = true ↔ WantsValue t next := by
  simp [WantsValue, and_assoc]

/-! ## Rule by rule

What the rules say that are not read in one step: the phrase is followed if its parts are. -/

theorem followed_binary {op : BinaryOp} {l r : Expr} {ls rs : List Token} {o : Token}
    (ihl : Followed (.expr (tierOf op) l) ls) (ho : o.kind = op.kind) (hline : Adjoins ls o)
    (hr : Derives (.expr (tierOf op + 1) r) rs) (ihr : Followed (.expr (tierOf op + 1) r) rs) :
    Followed (.expr (tierOf op) (.binary op l r ⟨l.span.first, endOf rs⟩)) (ls ++ o :: rs) := by
  obtain ⟨hone, hthree⟩ := Continuation.tierOf_bounds op
  have hroom : room (tierOf op) = tierOf op + 1 := if_neg (by omega)
  have hstrength : (Continuation.operator op).strength = tierOf op + 1 :=
    Continuation.opStrength_eq op
  refine ihl.step (c := .operator op) ho hline (by omega) (Nat.le_refl _)
    (fun h h' => by omega) hr.expr_ne_nil fun n rest stop hn hcalm => ?_
  rw [hroom, ← Continuation.opStrength_eq] at hcalm
  have hright : room (tierOf op + 1) = tierOf op + 2 := if_neg (by omega)
  refine (ihr.done _ ?_ ?_ ?_ hcalm).next (steps_span _ _ _)
  all_goals rw [Continuation.opStrength_eq]; omega

theorem followed_block {o c : Token} {b : Block} {ts : List Token} (ho : o.kind = .leftBrace)
    (ih : Followed (.stmts b c) ts) (hc : c.kind = .rightBrace) :
    Followed (.block b) (o :: (ts ++ [c])) := by
  intro rest stop last
  have hsource : o :: (ts ++ [c]) ++ rest = o :: (ts ++ c :: rest) := by simp
  rw [hsource, endOf_cons o (by simp), endOf_append ts (List.cons_ne_nil c [])]
  have hwhole : Steps wholeBlock ⟨o :: (ts ++ c :: rest), stop, last⟩
      (blockOf (stmtOf wholeExpr wholeBlock (ts ++ c :: rest).length.succ)
        (ts ++ c :: rest).length.succ) ⟨o :: (ts ++ c :: rest), stop, last⟩ :=
    wholeBlock_eq (Nat.le_refl _)
  refine hwhole.trans ((steps_expect_one ho).next ?_)
  refine ih hc _ _ rest stop _ (Nat.lt_succ_self _) ?_
  rw [List.length_append]
  omega

theorem followed_moreStmts {s : Stmt} {b : Block} {ts us : List Token} {next : Token}
    (hs : Derives (.stmt s (us.headD next)) ts) (ihs : Followed (.stmt s (us.headD next)) ts)
    (ihb : Followed (.stmts b next) us) : Followed (.stmts (s :: b) next) (ts ++ us) := by
  intro hnext n m rest stop last hn hm
  obtain ⟨m, rfl⟩ := Nat.exists_eq_succ_of_ne_zero (Nat.ne_of_gt (Nat.zero_lt_of_lt hm))
  obtain ⟨t, ts', rfl, hbrace, heof⟩ := hs.stmt_head
  rw [List.append_assoc] at hn ⊢
  refine steps_peek.next ?_
  rw [if_neg hbrace, if_neg heof]
  have hpeek : peek ⟨us ++ next :: rest, stop, endOf (t :: ts')⟩ =
      .done (us.headD next) ⟨us ++ next :: rest, stop, endOf (t :: ts')⟩ := by
    cases us <;> rfl
  refine (ihs n (us ++ next :: rest) stop last hn hpeek).next ?_
  refine (ihb hnext n m rest stop _ ?_ ?_).next rfl
  · simp only [List.length_append, List.length_cons] at hn ⊢
    omega
  · simp only [List.length_append, List.length_cons] at hm
    omega

theorem followed_fnDecl {k t next : Token} {x : Ident} {xs : List Ident} {b : Block}
    {us vs : List Token} (hk : k.kind = .fnWord) (hx : IsName t x) (hxs : Params xs us)
    (hb : Derives (.block b) vs) (ih : Followed (.block b) vs) :
    Followed (.stmt (.fnDecl x xs b ⟨k.span.first, endOf vs⟩) next) (k :: t :: (us ++ vs)) := by
  intro n rest stop last hn _
  have hlength : us.length ≤ n := by
    simp only [List.length_append, List.length_cons] at hn
    omega
  have hsource : k :: t :: (us ++ vs) ++ rest = k :: t :: (us ++ (vs ++ rest)) := by simp
  rw [hsource, endOf_cons k (by simp), endOf_cons t (by simp [hb.block_ne_nil]),
    endOf_append us hb.block_ne_nil]
  refine steps_peek.next ?_
  rw [hk]
  refine steps_next.next ((steps_peekIs .ident).next ?_)
  rw [hx.1, if_pos (beq_self_eq_true _)]
  refine (steps_ident hx).next ((steps_params hxs n _ stop _ hlength).next ?_)
  exact (ih rest stop _).next (steps_span _ _ _)

theorem followed_returnUnit {k next : Token} (hk : k.kind = .returnWord)
    (hwants : ¬ WantsValue k next) : Followed (.stmt (.returnUnit k.span) next) [k] := by
  intro n rest stop last _ hnext
  refine steps_peek.next ?_
  rw [hk]
  refine steps_next.next ((steps_onSameLine hnext).next (Steps.next (p := peek) hnext ?_))
  split
  next h => exact absurd (wantsValue_iff.mp h) hwants
  next => exact steps_span _ _ _

theorem followed_returnValue {k next : Token} {e : Expr} {ts : List Token}
    (hk : k.kind = .returnWord) (hwants : WantsValue k (ts.headD next))
    (he : Derives (.expr 0 e) ts) (hends : Ends ts next) (ih : Followed (.expr 0 e) ts) :
    Followed (.stmt (.returnValue e ⟨k.span.first, endOf ts⟩) next) (k :: ts) := by
  intro n rest stop last _ hnext
  rw [endOf_cons k he.expr_ne_nil] at hnext ⊢
  have hdone := ih.done_loosest k.span.last (calm_of_ends hnext hends)
  obtain ⟨t, us, rfl⟩ := List.exists_cons_of_ne_nil he.expr_ne_nil
  refine steps_peek.next ?_
  rw [hk]
  refine steps_next.next ((steps_onSameLine (t := t) rfl).next (steps_peek.next ?_))
  split
  next => exact hdone.next (steps_span _ _ _)
  next h => exact absurd (wantsValue_iff.mpr hwants) h

/-- The parsers follow every derivation. -/
theorem followed {φ : Phrase} {ts : List Token} (h : Derives φ ts) : Followed φ ts := by
  induction h with
  | @int t n hk hn =>
      refine reached_of_primary (List.cons_ne_nil t []) fun m rest stop last _ _ => ?_
      refine steps_next.next ?_
      rw [hk]
      show Steps (literal t (Decimal.natural? t.text.toList) .int) _ _ _
      rw [Decimal.natural?_eq_some_iff.mpr hn]
      rfl
  | @float t x hk hx =>
      refine reached_of_primary (List.cons_ne_nil t []) fun m rest stop last _ _ => ?_
      refine steps_next.next ?_
      rw [hk]
      show Steps (literal t (Decimal.literal? t.text.toList) .float) _ _ _
      rw [hx]
      rfl
  | @string t hk | @truth t hk | @falsity t hk =>
      refine reached_of_primary (List.cons_ne_nil t []) fun m rest stop last _ _ => ?_
      refine steps_next.next ?_
      rw [hk]
      rfl
  | @var t x hx =>
      obtain ⟨hk, rfl⟩ := hx
      refine reached_of_primary (List.cons_ne_nil t []) fun m rest stop last _ _ => ?_
      refine steps_next.next ?_
      rw [hk]
      rfl
  | @ref a t x hk hx =>
      refine reached_of_primary (List.cons_ne_nil a [t]) fun m rest stop last _ _ => ?_
      refine steps_next.next ?_
      rw [hk]
      exact (steps_ident hx).next (steps_span _ _ _)
  | @paren o c e ts hk he hc ih =>
      refine reached_of_primary (List.cons_ne_nil o _) fun m rest stop last _ _ => ?_
      have hsource : o :: (ts ++ [c]) ++ rest = o :: (ts ++ c :: rest) := by simp
      rw [hsource, endOf_cons o (by simp), endOf_append ts (List.cons_ne_nil c [])]
      refine steps_next.next ?_
      rw [hk]
      have hcalm : Calm 0 ⟨c :: rest, stop, endOf ts⟩ := calm_of_not_link (by rw [hc]; decide) 0
      exact (ih.done_loosest _ hcalm).next ((steps_expect_one hc).next rfl)
  | @fn f xs b us vs hk hxs hb ih =>
      refine reached_of_primary (List.cons_ne_nil f _) fun m rest stop last hm _ => ?_
      refine steps_next.next ?_
      rw [hk, endOf_cons f (by simp [hb.block_ne_nil]), endOf_append us hb.block_ne_nil]
      refine steps_fnRest hxs ih _ rest stop _ ?_
      simp only [List.cons_append, List.length_cons, List.length_append] at hm ⊢
      omega
  | @call l es ls us o hl ho hline hes ihl ihes =>
      refine ihl.step (c := .call) ho hline (by decide) (by decide) (fun h _ => by
        show _ < 6; omega) hes.args_ne_nil fun n rest stop hn _ => ?_
      rw [List.length_append] at hn
      exact (steps_args ihes rest stop _ (by omega)).next (steps_span _ _ _)
  | @method l x es ls us d t o hl hd hline hx ho hes ihl ihes =>
      refine ihl.step (c := .method) hd hline (by decide) (by decide) (fun h _ => by
        show _ < 6; omega) (List.cons_ne_nil t _) fun n rest stop hn _ => ?_
      simp only [List.length_append, List.length_cons] at hn
      rw [endOf_cons t (List.cons_ne_nil o us), endOf_cons o hes.args_ne_nil]
      refine (steps_ident hx).next ((steps_expect_one ho).next ?_)
      exact (steps_args ihes rest stop _ (by omega)).next (steps_span _ _ _)
  | @negate m e ts hk he ih =>
      refine reached_of_primary (List.cons_ne_nil m ts) fun n rest stop last _ hcalm => ?_
      refine steps_next.next ?_
      rw [endOf_cons m he.expr_ne_nil] at hcalm ⊢
      rw [hk]
      exact (ih.done _ (Nat.le_refl 5) (by decide) (Nat.le_refl 5) hcalm).next (steps_span _ _ _)
  | binary _ ho hline hr ihl ihr => exact followed_binary ihl ho hline hr ihr
  | @assign l v x ls rs o hl hx ho hline hv ihl ihv =>
      refine ihl.step (c := .assign) ho hline (by decide) (by decide) (fun h h' => by
        show _ < 1; omega) hv.expr_ne_nil fun n rest stop hn hcalm => ?_
      simp only [continuation, Expr.target?_eq_some_iff.mpr hx]
      exact (ihv.done_loosest _ hcalm).next (steps_span _ _ _)
  | @up tier e ts h ih =>
      intro k n rest stop last hk hmin hcalm hn
      refine ih k n rest stop last hk (Nat.le_succ_of_le hmin) (hcalm.mono ?_) hn
      unfold room
      split <;> simp
  | noArgs hc => exact .none hc
  | lastArg he hc ih => exact .one ⟨he.beginsExpr rfl, ih⟩ hc
  | moreArgs he hc _ ihe ihes => exact .more ⟨he.beginsExpr rfl, ihe⟩ hc ihes
  | block ho _ hc ih => exact followed_block ho ih hc
  | noStmts next =>
      intro hnext n m rest stop last _ hm
      obtain ⟨m, rfl⟩ := Nat.exists_eq_succ_of_ne_zero (Nat.ne_of_gt hm)
      refine steps_peek.next ?_
      rw [if_pos hnext]
      exact steps_next.next rfl
  | moreStmts hs _ ihs ihb => exact followed_moreStmts hs ihs ihb
  | @letIn k t o next x e ts hk hx ho he hends ih =>
      intro n rest stop last _ hnext
      rw [endOf_cons k (by simp), endOf_cons t (by simp), endOf_cons o he.expr_ne_nil] at hnext ⊢
      refine steps_peek.next ?_
      rw [hk]
      refine steps_next.next ((steps_ident hx).next ((steps_expect_one ho).next ?_))
      exact (ih.done_loosest _ (calm_of_ends hnext hends)).next (steps_span _ _ _)
  | fnDecl next hk hx hxs hb ih => exact followed_fnDecl hk hx hxs hb ih
  | @ifThen k e b ts us next hk he hb ihe ihb =>
      intro n rest stop last _ _
      rw [endOf_cons k (by simp [hb.block_ne_nil]), endOf_append ts hb.block_ne_nil]
      refine steps_peek.next ?_
      rw [hk]
      exact steps_next.next (steps_guarded ihe hb.block_head ihb .ifThen _ rest stop _)
  | @whileDo k e b ts us next hk he hb ihe ihb =>
      intro n rest stop last _ _
      rw [endOf_cons k (by simp [hb.block_ne_nil]), endOf_append ts hb.block_ne_nil]
      refine steps_peek.next ?_
      rw [hk]
      exact steps_next.next (steps_guarded ihe hb.block_head ihb .whileDo _ rest stop _)
  | returnUnit hk hwants => exact followed_returnUnit hk hwants
  | returnValue hk hwants he hends ih => exact followed_returnValue hk hwants he hends ih
  | @breakOut k next hk =>
      intro n rest stop last _ _
      refine steps_peek.next ?_
      rw [hk]
      exact steps_next.next rfl
  | @expr e ts next he hends ih =>
      intro n rest stop last hn hnext
      have hdone := ih.done_loosest last (calm_of_ends hnext hends)
      have hbegins := (he.beginsExpr rfl).append rest
      obtain ⟨t, us, rfl⟩ := List.exists_cons_of_ne_nil he.expr_ne_nil
      refine (steps_stmtOf_expr hbegins (Nat.le_of_lt hn)).trans ?_
      exact hdone.next (steps_span _ _ _)

/-! ## Programs -/

/-- Any bound above the number of tokens does for the statements of a program. -/
theorem stmtsToEnd_bound {s : Input} {n m m' : Nat} (hn : s.size < n) (hm : s.size < m)
    (hm' : s.size < m') : stmtsToEnd (stmtOf wholeExpr wholeBlock n) m s =
      stmtsToEnd (stmtOf wholeExpr wholeBlock n) m' s := by
  have hstmt : ∀ s', s'.size < n → Settles 1 (stmtOf wholeExpr wholeBlock n) s' :=
    settles_stmtOf (fun k s' _ => settles_wholeExpr k s') (fun s' _ => settles_wholeBlock s')
  exact eq_of_growing (below_stmtsToEnd (Below.refl _))
    (settles_stmtsToEnd hstmt m s hm hn).ne_exhausted
    (settles_stmtsToEnd hstmt m' s hm' hn).ne_exhausted

/-- Statements that are derived are read, and reading goes on behind them. -/
theorem steps_stmtsToEnd {φ : Phrase} {ts : List Token} (h : Derives φ ts) {P : Program}
    {next : Token} (hφ : φ = .stmts P next) {n m m' : Nat} (rest : List Token)
    (stop : Except ScanFault Position) (last : Position) (hn : (ts ++ rest).length < n)
    (hm : (ts ++ rest).length < m) (hm' : rest.length < m')
    (hnext : peek ⟨rest, stop, endFrom last ts⟩ = .done next ⟨rest, stop, endFrom last ts⟩) :
    Steps (stmtsToEnd (stmtOf wholeExpr wholeBlock n) m) ⟨ts ++ rest, stop, last⟩ (do
      let more ← stmtsToEnd (stmtOf wholeExpr wholeBlock n) m'
      return P ++ more) ⟨rest, stop, endFrom last ts⟩ := by
  induction h generalizing P next m last with
  | noStmts next' =>
      obtain ⟨rfl, rfl⟩ := Phrase.stmts.inj hφ
      have hbound : Steps (stmtsToEnd (stmtOf wholeExpr wholeBlock n) m) ⟨rest, stop, last⟩
          (stmtsToEnd (stmtOf wholeExpr wholeBlock n) m') ⟨rest, stop, last⟩ :=
        stmtsToEnd_bound hn hm hm'
      exact hbound.trans (steps_bind_pure _ _).symm
  | @moreStmts s b ts us next' hs hb _ ihb =>
      obtain ⟨rfl, rfl⟩ := Phrase.stmts.inj hφ
      obtain ⟨m, rfl⟩ := Nat.exists_eq_succ_of_ne_zero (Nat.ne_of_gt (Nat.zero_lt_of_lt hm))
      have hne : ts ≠ [] := hs.ne_nil fun _ _ => Phrase.noConfusion
      have hpos := List.length_pos_iff.mpr hne
      rw [endFrom_append, endFrom_eq_endOf hne] at hnext ⊢
      rw [List.append_assoc] at hn hm ⊢
      have hpeek : peek ⟨us ++ rest, stop, endOf ts⟩ =
          .done (us.headD next') ⟨us ++ rest, stop, endOf ts⟩ := by
        cases us with
        | nil => exact hnext
        | cons t us => rfl
      have hstmt := followed hs n (us ++ rest) stop last hn hpeek
      obtain ⟨t, ts', rfl, -, heof⟩ := hs.stmt_head
      refine steps_peek.next ?_
      rw [if_neg heof]
      refine hstmt.next ?_
      rw [List.length_append] at hn hm
      refine ((ihb rfl (m := m) (endOf (t :: ts')) (by omega) (by omega) hnext).bind _).trans ?_
      exact (steps_assoc _ _ _ _)
  | _ => exact nomatch hφ

/-- A program that is derived from the tokens at the front is read, and reading goes on behind it.
-/
theorem steps_program {ts : List Token} {P : Program} {next : Token}
    (h : Derives (.stmts P next) ts) {n : Nat} (rest : List Token)
    (stop : Except ScanFault Position) (last : Position) (hn : (ts ++ rest).length < n)
    (hnext : peek ⟨rest, stop, endFrom last ts⟩ = .done next ⟨rest, stop, endFrom last ts⟩) :
    Steps (program n) ⟨ts ++ rest, stop, last⟩ (do
      let more ← program n
      return P ++ more) ⟨rest, stop, endFrom last ts⟩ := by
  have hrest : rest.length < n := by
    rw [List.length_append] at hn
    omega
  have hmore : Steps (stmtsToEnd (stmtOf wholeExpr wholeBlock n) n) ⟨rest, stop, endFrom last ts⟩
      (program n) ⟨rest, stop, endFrom last ts⟩ := (program_eq hrest).symm
  have hwhole : Steps (program n) ⟨ts ++ rest, stop, last⟩
      (stmtsToEnd (stmtOf wholeExpr wholeBlock n) n) ⟨ts ++ rest, stop, last⟩ := program_eq hn
  have hstmts := steps_stmtsToEnd h rfl rest stop last hn hn hrest hnext
  exact (hwhole.trans hstmts).trans (hmore.bind _)

/-- The program that is derived from tokens is read from them. -/
theorem program_of_derives {n : Nat} {ts : List Token} {p last : Position} {P : Program}
    (h : Derives (.stmts P (.endAt p)) ts) (hn : ts.length < n) :
    ∃ s', program n ⟨ts, .ok p, last⟩ = .done P s' := by
  have hn' : (ts ++ []).length < n := by rwa [List.append_nil]
  have hnone : Steps (program n) ⟨[], .ok p, endFrom last ts⟩ (pure [])
      ⟨[], .ok p, endFrom last ts⟩ := by
    obtain ⟨n, rfl⟩ := Nat.exists_eq_succ_of_ne_zero (Nat.ne_of_gt (Nat.zero_lt_of_lt hn))
    rfl
  have hend := (steps_program h [] (.ok p) last hn' rfl).trans (hnone.next rfl)
  rw [List.append_nil, List.append_nil] at hend
  exact ⟨_, hend⟩

end Parser

end HamScript
