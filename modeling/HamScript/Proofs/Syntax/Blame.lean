/-
# Spans and faults are about tokens of the source

Every span that a parser puts into a tree begins where a token begins and ends where a token ends,
and does not go backwards (`Span.Between`).  A fault names a token in the same way, or the span of a
tree, or is the fault that the tokens end in.

The parsers hand tokens on and make none, so this goes through them one by one.  Looking at a token
and taking one are the only steps that bring one in.  A span is closed with the end of the token
that was taken last; so what is carried along is that the span from its beginning to there is one
between tokens, which stays so as more tokens are taken (`Between.onward`).
-/
import HamScript.Proofs.Syntax.Likeness
import HamScript.Proofs.Token.Row
import HamScript.Syntax.Total

namespace HamScript

open Parsing
open Source (Position Span)

/-! ## Tokens and the spans between them -/

/-- The tokens that a parser may be given, and the faults that they may end in. -/
structure Stock where
  tokens : Token → Prop
  faults : ScanFault → Prop

/-- The span goes from the beginning of one of the tokens to the end of one, and not backwards. -/
def Source.Span.Between (own : Token → Prop) (s : Span) : Prop :=
  ∃ t u, own t ∧ own u ∧ s = ⟨t.span.first, u.span.last⟩ ∧ s.first.offset ≤ s.last.offset

namespace Stock

/-- All spans are between tokens. -/
def Locates (S : Stock) (spans : List Span) : Prop :=
  ∀ s ∈ spans, s.Between S.tokens

@[simp] theorem locates_nil (S : Stock) : S.Locates [] :=
  fun _ h => absurd h List.not_mem_nil

@[simp] theorem locates_cons {S : Stock} {s : Span} {spans : List Span} :
    S.Locates (s :: spans) ↔ s.Between S.tokens ∧ S.Locates spans :=
  List.forall_mem_cons

@[simp] theorem locates_append {S : Stock} {spans spans' : List Span} :
    S.Locates (spans ++ spans') ↔ S.Locates spans ∧ S.Locates spans' :=
  List.forall_mem_append

/-- From the offset `n` on the tokens stand one behind the other, all of them and what they end in
are of the stock. -/
inductive Row (S : Stock) : Int → List Token → Except ScanFault Position → Prop
  | fault (n : Int) {f : ScanFault} : S.faults f → Row S n [] (.error f)
  | ended {n : Int} {p : Position} : n ≤ p.offset → S.tokens (.endAt p) → Row S n [] (.ok p)
  | token {n : Int} {t : Token} {ts : List Token} {stop : Except ScanFault Position} :
      n ≤ t.span.first.offset → t.span.first.offset ≤ t.span.last.offset → S.tokens t →
      Row S t.span.last.offset ts stop → Row S n (t :: ts) stop

/-- Tokens that stand one behind the other do so up to what they end in. -/
theorem row_of_rising {S : Stock} {n : Int} {ts : List Token} {stop : Except ScanFault Position}
    (h : Token.Rising n (Scan.listed ⟨ts, stop⟩)) (hown : ∀ t ∈ Scan.listed ⟨ts, stop⟩, S.tokens t)
    (hfault : ∀ f, stop = .error f → S.faults f) : S.Row n ts stop := by
  induction ts generalizing n with
  | nil =>
      cases stop with
      | error f => exact .fault n (hfault f rfl)
      | ok p =>
          cases h with
          | cons hfirst _ _ => exact .ended hfirst (hown _ List.mem_cons_self)
  | cons t ts ih =>
      cases h with
      | cons hfirst hlast hrest =>
          obtain ⟨ht, hts⟩ := List.forall_mem_cons.mp hown
          have hle : t.span.last.offset ≤ t.span.last.offset + 1 := Int.le_add_one (Int.le_refl _)
          exact .token hfirst hlast ht (ih (hrest.of_le hle) hts)

end Stock

/-- What the fault is about is of the stock. -/
def SyntaxFault.About (S : Stock) : SyntaxFault → Prop
  | .scan f => S.faults f
  | .expectedKind _ t => S.tokens t
  | .expectedExpression t => S.tokens t
  | .invalidTarget s => s.Between S.tokens

namespace Parsing.Input

/-- What is left is of the stock. -/
def Holds (S : Stock) (s : Input) : Prop :=
  S.Row s.last.offset s.tokens s.stop

/-- From the one input to the other tokens of the stock have been taken, or none. -/
structure Onward (S : Stock) (s s' : Input) : Prop where
  le : s.last.offset ≤ s'.last.offset
  last : ∀ u, S.tokens u → s.last = u.span.last → ∃ u', S.tokens u' ∧ s'.last = u'.span.last

/-- The token has been taken. -/
structure Taken (S : Stock) (s : Input) (t : Token) (s' : Input) : Prop where
  own : S.tokens t
  shown : Parser.peek s = .done t s
  last_eq : s'.last = t.span.last
  ordered : t.span.first.offset ≤ t.span.last.offset

/-- The token that was next, if there was one, and maybe more have been taken. -/
def Took (S : Stock) (s s' : Input) : Prop :=
  ∀ t, Parser.peek s = .done t s → Span.Between S.tokens ⟨t.span.first, s'.last⟩

section
variable {S : Stock} {s s' s'' : Input} {t : Token}

theorem onward_refl (S : Stock) (s : Input) : s.Onward S s :=
  ⟨Int.le_refl _, fun u hu hlast => ⟨u, hu, hlast⟩⟩

theorem Onward.trans (h : s.Onward S s') (h' : s'.Onward S s'') : s.Onward S s'' where
  le := Int.le_trans h.le h'.le
  last u hu hlast := by
    obtain ⟨u', hu', hlast'⟩ := h.last u hu hlast
    exact h'.last u' hu' hlast'

end

end Parsing.Input

section
variable {S : Stock} {s s' : Input} {t : Token} {first : Position}

/-- A span that is still open goes on to the end of the token that was taken last. -/
theorem Source.Span.Between.onward (h : Between S.tokens ⟨first, s.last⟩) (ho : s.Onward S s') :
    Between S.tokens ⟨first, s'.last⟩ := by
  obtain ⟨t, u, ht, hu, hspan, hle⟩ := h
  obtain ⟨hfirst, hlast⟩ := Span.mk.inj hspan
  obtain ⟨u', hu', hlast'⟩ := ho.last u hu hlast
  exact ⟨t, u', ht, hu', by rw [hfirst, hlast'], Int.le_trans hle ho.le⟩

theorem Parsing.Input.Took.onward {s'' : Input} (h : s.Took S s') (ho : s'.Onward S s'') :
    s.Took S s'' :=
  fun t ht => (h t ht).onward ho

namespace Parsing.Input.Taken

theorem between (h : s.Taken S t s') : t.span.Between S.tokens :=
  ⟨t, t, h.own, h.own, rfl, h.ordered⟩

theorem opens (h : s.Taken S t s') : Span.Between S.tokens ⟨t.span.first, s'.last⟩ := by
  rw [h.last_eq]
  exact h.between

theorem took (h : s.Taken S t s') : s.Took S s' := by
  intro t' ht'
  obtain ⟨rfl, -⟩ := Reply.done.inj (h.shown.symm.trans ht')
  exact h.opens

end Parsing.Input.Taken

end

/-- What is left is of the stock and `Q` holds of it and of what has been read; or the fault is
about the stock. -/
def Parsing.Reply.Keeps (S : Stock) (s : Input) {α : Type} (Q : α → Input → Prop) : Reply α → Prop
  | .done a s' => s'.Holds S ∧ s.Onward S s' ∧ Q a s'
  | .fault e => e.About S
  | .exhausted => True

namespace Parser

/-- Reading from the input keeps to the stock, and `Q` holds of what has been read and of what is
left. -/
def Keeps (S : Stock) {α : Type} (p : Parser α) (s : Input) (Q : α → Input → Prop) : Prop :=
  (p s).Keeps S s Q

/-- The spans of the expression are between tokens, and so is one from its beginning to the token
taken last. -/
structure HasRead (S : Stock) (e : Expr) (s : Input) : Prop where
  located : S.Locates e.spans
  opens : Span.Between S.tokens ⟨e.span.first, s.last⟩

/-- A parser for expressions, which takes at least one token. -/
def ReadsExpr (S : Stock) (p : Parser Expr) : Prop :=
  ∀ s, s.Holds S → Keeps S p s fun e s' => HasRead S e s' ∧ s.Took S s'

def ReadsStmt (S : Stock) (p : Parser Stmt) : Prop :=
  ∀ s, s.Holds S → Keeps S p s fun st _ => S.Locates st.spans

def ReadsBlock (S : Stock) (p : Parser Block) : Prop :=
  ∀ s, s.Holds S → Keeps S p s fun b _ => S.Locates (Stmt.allSpans b)

section
variable {S : Stock} {α β : Type} {s : Input} {Q : α → Input → Prop} {R : β → Input → Prop}

/-! ## Steps -/

theorem Keeps.bind {p : Parser α} {f : α → Parser β} (hp : Keeps S p s Q)
    (hf : ∀ a s', s'.Holds S → s.Onward S s' → Q a s' → Keeps S (f a) s' R) :
    Keeps S (p >>= f) s R := by
  show (Parser.bind p f s).Keeps S s R
  have hp : (p s).Keeps S s Q := hp
  rw [Parser.bind]
  cases hps : p s with
  | fault e =>
      rw [hps] at hp
      exact hp
  | exhausted => trivial
  | done a s' =>
      rw [hps] at hp
      obtain ⟨hs', ho, hq⟩ := hp
      have hfa : (f a s').Keeps S s' R := hf a s' hs' ho hq
      show (f a s').Keeps S s R
      cases hfas : f a s' with
      | fault e =>
          rw [hfas] at hfa
          exact hfa
      | exhausted => trivial
      | done b s'' =>
          rw [hfas] at hfa
          exact ⟨hfa.1, ho.trans hfa.2.1, hfa.2.2⟩

theorem Keeps.mono {p : Parser α} {Q' : α → Input → Prop} (h : Keeps S p s Q)
    (hQ : ∀ a s', s.Onward S s' → Q a s' → Q' a s') : Keeps S p s Q' := by
  show (p s).Keeps S s Q'
  have h : (p s).Keeps S s Q := h
  cases hps : p s with
  | fault e =>
      rw [hps] at h
      exact h
  | exhausted => trivial
  | done a s' =>
      rw [hps] at h
      exact ⟨h.1, h.2.1, hQ a s' h.2.1 h.2.2⟩

theorem keeps_pure {a : α} (hs : s.Holds S) (h : Q a s) : Keeps S (pure a) s Q :=
  ⟨hs, s.onward_refl S, h⟩

theorem keeps_raise {e : SyntaxFault} (he : e.About S) : Keeps S (raise e) s Q :=
  he

theorem keeps_exhausted : Keeps S (exhausted : Parser α) s Q :=
  trivial

/-- The next token and the end after the tokens are of the stock. -/
theorem keeps_peek (hs : s.Holds S) :
    Keeps S peek s fun t s' => S.tokens t ∧ s' = s ∧ peek s = .done t s := by
  obtain ⟨tokens, stop, last⟩ := s
  have hs : S.Row last.offset tokens stop := hs
  cases hs with
  | fault _ hf => exact hf
  | ended hle hp => exact ⟨.ended hle hp, Input.onward_refl S _, hp, rfl, rfl⟩
  | token hfirst hlast ht hrest =>
      exact ⟨.token hfirst hlast ht hrest, Input.onward_refl S _, ht, rfl, rfl⟩

theorem keeps_next (hs : s.Holds S) : Keeps S next s fun t s' => s.Taken S t s' := by
  obtain ⟨tokens, stop, last⟩ := s
  have hs : S.Row last.offset tokens stop := hs
  cases hs with
  | fault _ hf => exact hf
  | @ended _ p hle hp =>
      have hend : Input.Taken S ⟨[], .ok p, last⟩ (.endAt p) ⟨[], .ok p, p⟩ :=
        ⟨hp, rfl, rfl, Int.le_refl _⟩
      exact ⟨.ended (Int.le_refl _) hp, ⟨hle, fun _ _ _ => ⟨_, hp, rfl⟩⟩, hend⟩
  | @token _ t ts _ hfirst hlast ht hrest =>
      have htaken : Input.Taken S ⟨t :: ts, stop, last⟩ t ⟨ts, stop, t.span.last⟩ :=
        ⟨ht, rfl, rfl, hlast⟩
      exact ⟨hrest, ⟨Int.le_trans hfirst hlast, fun _ _ _ => ⟨t, ht, rfl⟩⟩, htaken⟩

theorem keeps_expect (kinds : List Kind) (hs : s.Holds S) :
    Keeps S (expect kinds) s fun t s' => s.Taken S t s' := by
  refine (keeps_next hs).bind ?_
  intro t s' hs' _ ht
  split
  · exact keeps_pure hs' ht
  · exact keeps_raise ht.own

theorem keeps_peekIs (kind : Kind) (hs : s.Holds S) :
    Keeps S (peekIs kind) s fun _ _ => True := by
  refine (keeps_peek hs).bind ?_
  intro t s' hs' _ _
  exact keeps_pure hs' trivial

theorem keeps_onSameLine (hs : s.Holds S) : Keeps S onSameLine s fun _ _ => True := by
  have hpeek : (peek s).Keeps S s _ := keeps_peek hs
  show (onSameLine s).Keeps S s _
  rw [onSameLine]
  cases hps : peek s with
  | done t s' =>
      rw [hps] at hpeek
      exact ⟨hpeek.1, hpeek.2.1, trivial⟩
  | fault e =>
      rw [hps] at hpeek
      exact hpeek
  | exhausted => trivial

/-- A span is closed where the token that was taken last ends. -/
theorem keeps_spanFrom {first : Position} {f : Span → Parser α}
    (h : Keeps S (f ⟨first, s.last⟩) s Q) : Keeps S (spanFrom first >>= f) s Q :=
  h

theorem keeps_ident (hs : s.Holds S) :
    Keeps S ident s fun x _ => x.span.Between S.tokens := by
  refine (keeps_expect _ hs).bind ?_
  intro t s' hs' _ ht
  exact keeps_pure hs' ht.between

/-! ## Lists and blocks -/

theorem keeps_commaList {p : Parser α} {P : α → Prop}
    (hp : ∀ s, s.Holds S → Keeps S p s fun a _ => P a) (n : Nat) (hs : s.Holds S) :
    Keeps S (commaList p n) s fun as _ => ∀ a ∈ as, P a := by
  induction n generalizing s with
  | zero => exact keeps_exhausted
  | succ n ih =>
      have hclose : ∀ (as : List α) (s : Input), s.Holds S → (∀ a ∈ as, P a) →
          Keeps S (do let _ ← expect [.rightParen]; return as) s fun as _ => ∀ a ∈ as, P a := by
        intro as s hs has
        refine (keeps_expect _ hs).bind ?_
        intro _ s' hs' _ _
        exact keeps_pure hs' has
      refine (keeps_peekIs _ hs).bind ?_
      intro closed s₁ hs₁ _ _
      cases closed with
      | true => exact hclose [] s₁ hs₁ fun _ h => absurd h List.not_mem_nil
      | false =>
          refine (hp s₁ hs₁).bind ?_
          intro a s₂ hs₂ _ ha
          refine (keeps_peekIs _ hs₂).bind ?_
          intro closed s₃ hs₃ _ _
          cases closed with
          | true => exact hclose [a] s₃ hs₃ (List.forall_mem_singleton.mpr ha)
          | false =>
              refine (keeps_expect _ hs₃).bind ?_
              intro _ s₄ hs₄ _ _
              refine (ih hs₄).bind ?_
              intro as s₅ hs₅ _ has
              exact keeps_pure hs₅ (List.forall_mem_cons.mpr ⟨ha, has⟩)

theorem keeps_params (n : Nat) (hs : s.Holds S) :
    Keeps S (params n) s fun xs _ => S.Locates (xs.map Ident.span) := by
  refine (keeps_expect _ hs).bind ?_
  intro _ s₁ hs₁ _ _
  refine (keeps_commaList (fun s hs => keeps_ident hs) n hs₁).mono ?_
  intro xs s₂ _ hxs
  exact List.forall_mem_map.mpr hxs

theorem reads_stmtsToBrace {p : Parser Stmt} (hp : ReadsStmt S p) (n : Nat) :
    ReadsBlock S (stmtsToBrace p n) := by
  induction n with
  | zero => exact fun _ _ => keeps_exhausted
  | succ n ih =>
      intro s hs
      refine (keeps_peek hs).bind ?_
      rintro t s₁ hs₁ - ⟨ht, -, -⟩
      split
      · refine (keeps_next hs₁).bind ?_
        intro _ s₂ hs₂ _ _
        exact keeps_pure hs₂ S.locates_nil
      split
      · exact keeps_raise ht
      refine (hp s₁ hs₁).bind ?_
      intro st s₂ hs₂ _ hst
      refine (ih s₂ hs₂).bind ?_
      intro b s₃ hs₃ _ hb
      exact keeps_pure hs₃ (Stock.locates_append.mpr ⟨hst, hb⟩)

theorem reads_blockOf {p : Parser Stmt} (hp : ReadsStmt S p) (n : Nat) :
    ReadsBlock S (blockOf p n) := by
  intro s hs
  refine (keeps_expect _ hs).bind ?_
  intro _ s₁ hs₁ _ _
  exact reads_stmtsToBrace hp n s₁ hs₁

theorem reads_stmtsToEnd {p : Parser Stmt} (hp : ReadsStmt S p) (n : Nat) :
    ReadsBlock S (stmtsToEnd p n) := by
  induction n with
  | zero => exact fun _ _ => keeps_exhausted
  | succ n ih =>
      intro s hs
      refine (keeps_peek hs).bind ?_
      intro t s₁ hs₁ _ _
      split
      · exact keeps_pure hs₁ S.locates_nil
      refine (hp s₁ hs₁).bind ?_
      intro st s₂ hs₂ _ hst
      refine (ih s₂ hs₂).bind ?_
      intro b s₃ hs₃ _ hb
      exact keeps_pure hs₃ (Stock.locates_append.mpr ⟨hst, hb⟩)

/-! ## Expressions -/

theorem HasRead.onward {e : Expr} {s' : Input} (h : HasRead S e s) (ho : s.Onward S s') :
    HasRead S e s' :=
  ⟨h.located, h.opens.onward ho⟩

theorem HasRead.between {e : Expr} (h : HasRead S e s) : e.span.Between S.tokens := by
  refine h.located e.span ?_
  cases e <;> simp [Expr.span, Expr.spans]

theorem mem_spans_of_target? {e : Expr} {x : Ident} (h : e.target? = some x) :
    x.span ∈ e.spans := by
  cases e with
  | var y =>
      obtain rfl : y = x := Option.some.inj h
      exact List.mem_cons_self
  | ref y _ =>
      obtain rfl : y = x := Option.some.inj h
      exact List.mem_cons_self
  | int | float | string | bool | negate | binary | assign | call | method | fn => exact nomatch h

/-- A token that is an expression by itself. -/
theorem HasRead.of_token {e : Expr} {s' : Input} {t : Token} (ht : s.Taken S t s')
    (hspans : e.spans = [t.span]) (hspan : e.span = t.span) : HasRead S e s' where
  located := by
    rw [hspans]
    exact Stock.locates_cons.mpr ⟨ht.between, S.locates_nil⟩
  opens := by
    rw [hspan]
    exact ht.opens

theorem locates_allSpans {es : List Expr} (h : ∀ e ∈ es, S.Locates e.spans) :
    S.Locates (Expr.allSpans es) := by
  induction es with
  | nil => exact S.locates_nil
  | cons e es ih =>
      obtain ⟨he, hes⟩ := List.forall_mem_cons.mp h
      exact Stock.locates_append.mpr ⟨he, ih hes⟩

variable {e : Nat → Parser Expr} {b : Parser Block}

theorem keeps_args (he : ∀ k, ReadsExpr S (e k)) (n : Nat) (hs : s.Holds S) :
    Keeps S (commaList (e loosest) n) s fun es _ => S.Locates (Expr.allSpans es) := by
  have hitem : ∀ s, s.Holds S → Keeps S (e loosest) s fun e _ => S.Locates e.spans := by
    intro s hs
    refine (he loosest s hs).mono ?_
    rintro e s' - ⟨he, -⟩
    exact he.located
  refine (keeps_commaList hitem n hs).mono ?_
  intro es s' _ hes
  exact locates_allSpans hes

theorem keeps_literal {t : Token} {s' : Input} (ht : s.Taken S t s') (hs' : s'.Holds S)
    (value : Option α) (make : α → Span → Expr)
    (hmake : ∀ v sp, (make v sp).spans = [sp] ∧ (make v sp).span = sp) :
    Keeps S (literal t value make) s' fun e s'' => HasRead S e s'' ∧ s.Took S s'' := by
  cases value with
  | none => exact keeps_raise ht.own
  | some v =>
      obtain ⟨hspans, hspan⟩ := hmake v t.span
      exact keeps_pure hs' ⟨.of_token ht hspans hspan, ht.took⟩

/-- A function after its first word. -/
theorem keeps_fnRest (hb : ReadsBlock S b) (n : Nat) {first : Position} (hs : s.Holds S)
    (hfirst : Span.Between S.tokens ⟨first, s.last⟩) :
    Keeps S (fnRest b n first) s fun e s' => HasRead S e s' := by
  refine (keeps_params n hs).bind ?_
  intro xs s₁ hs₁ ho₁ hxs
  refine (hb s₁ hs₁).bind ?_
  intro body s₂ hs₂ ho₂ hbody
  have hspan := (hfirst.onward ho₁).onward ho₂
  refine keeps_spanFrom (keeps_pure hs₂ ⟨?_, hspan⟩)
  exact Stock.locates_cons.mpr ⟨hspan, Stock.locates_append.mpr ⟨hxs, hbody⟩⟩

theorem reads_primary (he : ∀ k, ReadsExpr S (e k)) (hb : ReadsBlock S b) (n : Nat) :
    ReadsExpr S (primary e b n) := by
  intro s hs
  refine (keeps_next hs).bind ?_
  intro t s₁ hs₁ _ ht
  dsimp only
  cases t.kind with
  | int => exact keeps_literal ht hs₁ _ _ fun _ _ => ⟨rfl, rfl⟩
  | float => exact keeps_literal ht hs₁ _ _ fun _ _ => ⟨rfl, rfl⟩
  | string | trueWord | falseWord | ident =>
      exact keeps_pure hs₁ ⟨.of_token ht rfl rfl, ht.took⟩
  | leftParen =>
      refine (he loosest s₁ hs₁).bind ?_
      rintro inner s₂ hs₂ ho₂ ⟨hinner, -⟩
      refine (keeps_expect _ hs₂).bind ?_
      intro _ s₃ hs₃ ho₃ _
      exact keeps_pure hs₃ ⟨hinner.onward ho₃, ht.took.onward (ho₂.trans ho₃)⟩
  | minus =>
      refine (he negateStrength s₁ hs₁).bind ?_
      rintro operand s₂ hs₂ ho₂ ⟨hoperand, -⟩
      have hspan := ht.opens.onward ho₂
      refine keeps_spanFrom (keeps_pure hs₂ ⟨⟨?_, hspan⟩, ht.took.onward ho₂⟩)
      exact Stock.locates_cons.mpr ⟨hspan, hoperand.located⟩
  | fnWord =>
      refine (keeps_fnRest hb n hs₁ ht.opens).mono ?_
      intro f s₂ ho₂ hf
      exact ⟨hf, ht.took.onward ho₂⟩
  | ampersand =>
      refine (keeps_ident hs₁).bind ?_
      intro x s₂ hs₂ ho₂ hx
      have hspan := ht.opens.onward ho₂
      refine keeps_spanFrom (keeps_pure hs₂ ⟨⟨?_, hspan⟩, ht.took.onward ho₂⟩)
      exact Stock.locates_cons.mpr ⟨hx, Stock.locates_cons.mpr ⟨hspan, S.locates_nil⟩⟩
  | _ => exact keeps_raise ht.own

/-- What goes on with an expression begins where the expression begins. -/
theorem keeps_continuation (he : ∀ k, ReadsExpr S (e k)) (n : Nat) {left : Expr}
    (hs : s.Holds S) (hleft : HasRead S left s) (c : Continuation) :
    Keeps S (continuation e n left c) s fun longer s' => HasRead S longer s' := by
  cases c with
  | assign =>
      rw [continuation]
      cases htarget : left.target? with
      | none => exact keeps_raise hleft.between
      | some x =>
          refine (he loosest s hs).bind ?_
          rintro value s₁ hs₁ ho₁ ⟨hvalue, -⟩
          have hspan := hleft.opens.onward ho₁
          have hx := hleft.located x.span (mem_spans_of_target? htarget)
          refine keeps_spanFrom (keeps_pure hs₁ ⟨?_, hspan⟩)
          exact Stock.locates_cons.mpr ⟨hspan, Stock.locates_cons.mpr ⟨hx, hvalue.located⟩⟩
  | operator op =>
      refine (he (opStrength op) s hs).bind ?_
      rintro right s₁ hs₁ ho₁ ⟨hright, -⟩
      have hspan := hleft.opens.onward ho₁
      refine keeps_spanFrom (keeps_pure hs₁ ⟨?_, hspan⟩)
      exact Stock.locates_cons.mpr ⟨hspan, Stock.locates_append.mpr ⟨hleft.located, hright.located⟩⟩
  | call =>
      refine (keeps_args he n hs).bind ?_
      intro args s₁ hs₁ ho₁ hargs
      have hspan := hleft.opens.onward ho₁
      refine keeps_spanFrom (keeps_pure hs₁ ⟨?_, hspan⟩)
      exact Stock.locates_cons.mpr ⟨hspan, Stock.locates_append.mpr ⟨hleft.located, hargs⟩⟩
  | method =>
      refine (keeps_ident hs).bind ?_
      intro x s₁ hs₁ ho₁ hx
      refine (keeps_expect _ hs₁).bind ?_
      intro _ s₂ hs₂ ho₂ _
      refine (keeps_args he n hs₂).bind ?_
      intro args s₃ hs₃ ho₃ hargs
      have hspan := hleft.opens.onward ((ho₁.trans ho₂).trans ho₃)
      refine keeps_spanFrom (keeps_pure hs₃ ⟨?_, hspan⟩)
      exact Stock.locates_cons.mpr ⟨hspan, Stock.locates_cons.mpr ⟨hx,
        Stock.locates_append.mpr ⟨hleft.located, hargs⟩⟩⟩

theorem keeps_continueFrom (he : ∀ k, ReadsExpr S (e k)) (strength n : Nat) {left : Expr}
    (hs : s.Holds S) (hleft : HasRead S left s) :
    Keeps S (continueFrom e strength n left) s fun longer s' => HasRead S longer s' := by
  induction n generalizing s left with
  | zero => exact keeps_exhausted
  | succ n ih =>
      refine (keeps_peek hs).bind ?_
      intro t s₁ hs₁ ho₁ _
      have hleft := hleft.onward ho₁
      cases Continuation.ofKind? t.kind with
      | none => exact keeps_pure hs₁ hleft
      | some c =>
          dsimp only
          split
          · exact keeps_pure hs₁ hleft
          refine (keeps_onSameLine hs₁).bind ?_
          intro sameLine s₂ hs₂ ho₂ _
          cases sameLine with
          | false => exact keeps_pure hs₂ (hleft.onward ho₂)
          | true =>
              refine (keeps_next hs₂).bind ?_
              intro _ s₃ hs₃ ho₃ _
              refine (keeps_continuation he n hs₃ (hleft.onward (ho₂.trans ho₃)) c).bind ?_
              intro longer s₄ hs₄ _ hlonger
              exact ih hs₄ hlonger

theorem reads_exprOf (he : ∀ k, ReadsExpr S (e k)) (hb : ReadsBlock S b) (n strength : Nat) :
    ReadsExpr S (exprOf e b n strength) := by
  intro s hs
  refine (reads_primary he hb n s hs).bind ?_
  rintro left s₁ hs₁ - ⟨hleft, htook⟩
  refine (keeps_continueFrom he strength n hs₁ hleft).mono ?_
  intro longer s₂ ho₂ hlonger
  exact ⟨hlonger, htook.onward ho₂⟩

/-! ## Statements -/

theorem reads_fnStmt (he : ∀ k, ReadsExpr S (e k)) (hb : ReadsBlock S b) (n : Nat) :
    ReadsStmt S (fnStmt e b n) := by
  intro s hs
  refine (keeps_next hs).bind ?_
  intro t s₁ hs₁ _ ht
  refine (keeps_peekIs _ hs₁).bind ?_
  intro named s₂ hs₂ ho₂ _
  have hopens := ht.opens.onward ho₂
  cases named with
  | true =>
      refine (keeps_ident hs₂).bind ?_
      intro x s₃ hs₃ ho₃ hx
      refine (keeps_params n hs₃).bind ?_
      intro xs s₄ hs₄ ho₄ hxs
      refine (hb s₄ hs₄).bind ?_
      intro body s₅ hs₅ ho₅ hbody
      have hspan := hopens.onward ((ho₃.trans ho₄).trans ho₅)
      refine keeps_spanFrom (keeps_pure hs₅ ?_)
      exact Stock.locates_cons.mpr ⟨hspan, Stock.locates_cons.mpr ⟨hx,
        Stock.locates_append.mpr ⟨hxs, hbody⟩⟩⟩
  | false =>
      refine (keeps_fnRest hb n hs₂ hopens).bind ?_
      intro left s₃ hs₃ ho₃ hleft
      refine (keeps_continueFrom he loosest n hs₃ hleft).bind ?_
      intro value s₄ hs₄ ho₄ hvalue
      have hspan := hopens.onward (ho₃.trans ho₄)
      refine keeps_spanFrom (keeps_pure hs₄ ?_)
      exact Stock.locates_cons.mpr ⟨hspan, hvalue.located⟩

theorem keeps_returnRest (he : ∀ k, ReadsExpr S (e k)) {first : Position} (hs : s.Holds S)
    (hfirst : Span.Between S.tokens ⟨first, s.last⟩) :
    Keeps S (returnRest e first) s fun st _ => S.Locates st.spans := by
  refine (keeps_onSameLine hs).bind ?_
  intro sameLine s₁ hs₁ ho₁ _
  refine (keeps_peek hs₁).bind ?_
  intro t s₂ hs₂ ho₂ _
  have hfirst := hfirst.onward (ho₁.trans ho₂)
  split
  · refine (he loosest s₂ hs₂).bind ?_
    rintro value s₃ hs₃ ho₃ ⟨hvalue, -⟩
    refine keeps_spanFrom (keeps_pure hs₃ ?_)
    exact Stock.locates_cons.mpr ⟨hfirst.onward ho₃, hvalue.located⟩
  · refine keeps_spanFrom (keeps_pure hs₂ ?_)
    exact Stock.locates_cons.mpr ⟨hfirst, S.locates_nil⟩

theorem keeps_guarded (he : ∀ k, ReadsExpr S (e k)) (hb : ReadsBlock S b) {first : Position}
    {make : Expr → Block → Span → Stmt}
    (hmake : ∀ c body sp, (make c body sp).spans = sp :: (c.spans ++ Stmt.allSpans body))
    (hs : s.Holds S) (hfirst : Span.Between S.tokens ⟨first, s.last⟩) :
    Keeps S (guarded e b first make) s fun st _ => S.Locates st.spans := by
  refine (he loosest s hs).bind ?_
  rintro condition s₁ hs₁ ho₁ ⟨hcondition, -⟩
  refine (hb s₁ hs₁).bind ?_
  intro body s₂ hs₂ ho₂ hbody
  refine keeps_spanFrom (keeps_pure hs₂ ?_)
  rw [hmake]
  exact Stock.locates_cons.mpr ⟨hfirst.onward (ho₁.trans ho₂),
    Stock.locates_append.mpr ⟨hcondition.located, hbody⟩⟩

theorem reads_stmtOf (he : ∀ k, ReadsExpr S (e k)) (hb : ReadsBlock S b) (n : Nat) :
    ReadsStmt S (stmtOf e b n) := by
  intro s hs
  refine (keeps_peek hs).bind ?_
  rintro t _ - - ⟨ht, rfl, hpeek⟩
  -- the token that was looked at is the one that is taken first
  dsimp only
  split
  next =>
    refine (keeps_next hs).bind ?_
    intro _ s₁ hs₁ _ htaken
    refine (keeps_ident hs₁).bind ?_
    intro x s₂ hs₂ ho₂ hx
    refine (keeps_expect _ hs₂).bind ?_
    intro _ s₃ hs₃ ho₃ _
    refine (he loosest s₃ hs₃).bind ?_
    rintro value s₄ hs₄ ho₄ ⟨hvalue, -⟩
    have hspan := (htaken.took t hpeek).onward ((ho₂.trans ho₃).trans ho₄)
    refine keeps_spanFrom (keeps_pure hs₄ ?_)
    exact Stock.locates_cons.mpr ⟨hspan, Stock.locates_cons.mpr ⟨hx, hvalue.located⟩⟩
  next => exact reads_fnStmt he hb n _ hs
  next =>
    refine (keeps_next hs).bind ?_
    intro _ s₁ hs₁ _ htaken
    exact keeps_guarded he hb (fun _ _ _ => rfl) hs₁ (htaken.took t hpeek)
  next =>
    refine (keeps_next hs).bind ?_
    intro _ s₁ hs₁ _ htaken
    exact keeps_guarded he hb (fun _ _ _ => rfl) hs₁ (htaken.took t hpeek)
  next =>
    refine (keeps_next hs).bind ?_
    intro _ s₁ hs₁ _ htaken
    exact keeps_returnRest he hs₁ (htaken.took t hpeek)
  next =>
    refine (keeps_next hs).bind ?_
    intro u s₁ hs₁ _ htaken
    obtain ⟨rfl, -⟩ := Reply.done.inj (htaken.shown.symm.trans hpeek)
    exact keeps_pure hs₁ (Stock.locates_cons.mpr ⟨htaken.between, S.locates_nil⟩)
  next =>
    refine (he loosest _ hs).bind ?_
    rintro value s₁ hs₁ - ⟨hvalue, htook⟩
    refine keeps_spanFrom (keeps_pure hs₁ ?_)
    exact Stock.locates_cons.mpr ⟨htook t hpeek, hvalue.located⟩

theorem reads_knot : (n : Nat) → (∀ k, ReadsExpr S (expr n k)) ∧ ReadsBlock S (block n)
  | 0 => ⟨fun _ _ _ => keeps_exhausted, fun _ _ => keeps_exhausted⟩
  | n + 1 => by
      obtain ⟨he, hb⟩ := reads_knot n
      exact ⟨fun k => reads_exprOf he hb n k, reads_blockOf (reads_stmtOf he hb n) n⟩

/-- A program that is read has its spans between tokens of the stock, and a fault is about it. -/
theorem reads_program (n : Nat) : ReadsBlock S (program n) := by
  obtain ⟨he, hb⟩ := reads_knot n
  exact reads_stmtsToEnd (reads_stmtOf he hb n) n

end

end Parser

/-! ## Scans -/

/-- The tokens that a scan lists and the fault that it may end in. -/
def Scan.stock (s : Scan) : Stock where
  tokens t := t ∈ s.listed
  faults f := s.stop = .error f

theorem Scan.holds_input {s : Scan} (h : Token.Rising 0 s.listed) : s.input.Holds s.stock :=
  Stock.row_of_rising h (fun _ ht => ht) fun _ hf => hf

namespace Program

variable {s : Scan}

/-- The spans of a program that has been read are between tokens of the scan. -/
theorem locates_of_ofScan (h : Token.Rising 0 s.listed) {P : Program} (hP : ofScan s = .ok P) :
    s.stock.Locates (Stmt.allSpans P) := by
  obtain ⟨s', hdone⟩ := ofScan_eq_ok_iff.mp hP
  have hkeeps : Reply.Keeps s.stock s.input _ (Parser.program s.bound s.input) :=
    Parser.reads_program s.bound _ (Scan.holds_input h)
  rw [hdone] at hkeeps
  exact hkeeps.2.2

/-- What is wrong with a scan that is no program is about the tokens of the scan. -/
theorem about_of_ofScan (h : Token.Rising 0 s.listed) {e : SyntaxFault} (he : ofScan s = .error e) :
    e.About s.stock := by
  have hkeeps : Reply.Keeps s.stock s.input _ (Parser.program s.bound s.input) :=
    Parser.reads_program s.bound _ (Scan.holds_input h)
  rw [ofScan_eq_error_iff.mp he] at hkeeps
  exact hkeeps

end Program

end HamScript
