/-
# Every source is read to an answer

The bound that a scan gives its parser is never reached: each turn of a loop and each level of
nesting takes a token.  Hence reading a program gives the program or a fault, with nothing in
between.

Statements about parsers are made through `Reply.Sat`: what holds of the value and the rest when the
parser is done, and what holds of the fault otherwise.  Being exhausted satisfies nothing.
-/
import HamScript.Syntax.Parser

namespace HamScript

open Source (Position Span)

namespace Parsing

/-- How many tokens are left. -/
def Input.size (s : Input) : Nat :=
  s.tokens.length

/-- `Q` holds of what a parser has read, or `F` of the fault it met. -/
def Reply.Sat {α : Type} (Q : α → Input → Prop) (F : SyntaxFault → Prop) : Reply α → Prop
  | .done a s => Q a s
  | .fault e => F e
  | .exhausted => False

theorem Reply.Sat.mono {α : Type} {Q Q' : α → Input → Prop} {F F' : SyntaxFault → Prop}
    {r : Reply α} (h : r.Sat Q F) (hQ : ∀ a s, Q a s → Q' a s) (hF : ∀ e, F e → F' e) :
    r.Sat Q' F' := by
  cases r with
  | done a s => exact hQ a s h
  | fault e => exact hF e h
  | exhausted => exact h

end Parsing

namespace Parser

open Parsing

/-! ## Steps -/

theorem sat_bind {α β : Type} {p : Parser α} {f : α → Parser β} {s : Input}
    {Q : β → Input → Prop} {F : SyntaxFault → Prop} :
    ((p >>= f) s).Sat Q F ↔ (p s).Sat (fun a s' => (f a s').Sat Q F) F := by
  change (Parser.bind p f s).Sat Q F ↔ _
  unfold Parser.bind
  cases p s <;> exact Iff.rfl

theorem sat_pure {α : Type} {a : α} {s : Input} {Q : α → Input → Prop} {F : SyntaxFault → Prop} :
    ((pure a : Parser α) s).Sat Q F ↔ Q a s :=
  Iff.rfl

/-- Looking at the next token leaves the input as it is; an input without tokens shows `eof`. -/
theorem sat_peek {s : Input} {Q : Token → Input → Prop} {F : SyntaxFault → Prop}
    (hcons : ∀ t ts, s.tokens = t :: ts → Q t s)
    (hnil : ∀ p, s.tokens = [] → Q (.endAt p) s)
    (hfault : ∀ e, F (.scan e)) : (peek s).Sat Q F := by
  unfold peek
  split
  · next t ts h => exact hcons t ts h
  · next h =>
    split
    · next p _ => exact hnil p h
    · next e _ => exact hfault e

/-- Taking a token takes one off the input, unless it is `eof`. -/
theorem sat_next {s : Input} {Q : Token → Input → Prop} {F : SyntaxFault → Prop}
    (hcons : ∀ t ts, s.tokens = t :: ts → Q t { s with tokens := ts, last := t.span.last })
    (hnil : ∀ p, s.tokens = [] → Q (.endAt p) { s with last := p })
    (hfault : ∀ e, F (.scan e)) : (next s).Sat Q F := by
  unfold next
  split
  · next t ts h => exact hcons t ts h
  · next h =>
    split
    · next p _ => exact hnil p h
    · next e _ => exact hfault e

/-! ## Settling -/

/-- The parser comes to an answer, and if it is done it has taken at least `d` tokens. -/
def Settles {α : Type} (d : Nat) (p : Parser α) (s : Input) : Prop :=
  (p s).Sat (fun _ s' => s'.size + d ≤ s.size) (fun _ => True)

theorem Settles.mono {α : Type} {d d' : Nat} {p : Parser α} {s : Input} (h : Settles d p s)
    (hd : d' ≤ d) : Settles d' p s :=
  Reply.Sat.mono h (fun _ _ hs => by omega) (fun _ _ => trivial)

/-- Parsers settle one after the other. -/
theorem Settles.bind {α β : Type} {d e : Nat} {p : Parser α} {f : α → Parser β} {s : Input}
    (hp : Settles d p s) (hf : ∀ a s', s'.size + d ≤ s.size → Settles e (f a) s') :
    Settles (d + e) (p >>= f) s := by
  refine sat_bind.2 (Reply.Sat.mono hp (fun a s' hs => ?_) (fun _ h => h))
  exact Reply.Sat.mono (hf a s' hs) (fun _ _ h => by omega) (fun _ h => h)

/-- A step that takes nothing, then another parser. -/
theorem Settles.bind_keep {α β : Type} {e : Nat} {p : Parser α} {f : α → Parser β} {s : Input}
    (hp : Settles 0 p s) (hf : ∀ a s', s'.size ≤ s.size → Settles e (f a) s') :
    Settles e (p >>= f) s :=
  (Settles.bind hp hf).mono (by omega)

/-- A step that takes a token, then a parser that need take none. -/
theorem Settles.bind_take {α β : Type} {p : Parser α} {f : α → Parser β} {s : Input}
    (hp : Settles 1 p s) (hf : ∀ a s', s'.size < s.size → Settles 0 (f a) s') :
    Settles 1 (p >>= f) s :=
  Settles.bind (e := 0) hp (fun a s' hs => hf a s' (by omega))

theorem settles_pure {α : Type} (a : α) (s : Input) : Settles 0 (pure a : Parser α) s :=
  sat_pure.2 (Nat.le_refl _)

theorem settles_peek (s : Input) : Settles 0 peek s :=
  sat_peek (fun _ _ _ => Nat.le_refl _) (fun _ _ => Nat.le_refl _) (fun _ => trivial)

theorem settles_next (s : Input) : Settles 0 next s := by
  refine sat_next (fun t ts h => ?_) (fun _ _ => Nat.le_refl _) (fun _ => trivial)
  simp [Input.size, h]

/-- With a token left, `next` takes it. -/
theorem settles_next_of_pos {s : Input} (hs : 0 < s.size) : Settles 1 next s := by
  refine sat_next (fun t ts h => ?_) (fun _ h => ?_) (fun _ => trivial)
  · simp [Input.size, h]
  · simp [Input.size, h] at hs

/-- A token of an expected kind is taken, `eof` not being expected. -/
theorem settles_expect {kinds : List Kind} (h : kinds.contains .eof = false) (s : Input) :
    Settles 1 (expect kinds) s := by
  refine sat_bind.2 (sat_next (fun t ts hts => ?_) (fun p _ => ?_) (fun _ => trivial))
  · split
    · exact sat_pure.2 (by simp [Input.size, hts])
    · trivial
  · split
    · next hk => rw [Token.endAt, h] at hk; cases hk
    · trivial

theorem settles_peekIs (kind : Kind) (s : Input) : Settles 0 (peekIs kind) s :=
  (settles_peek s).bind_keep (fun _ _ _ => settles_pure _ _)

theorem settles_onSameLine (s : Input) : Settles 0 onSameLine s := by
  unfold Settles onSameLine
  have h := settles_peek s
  unfold Settles at h
  cases hp : peek s <;> rw [hp] at h <;> exact h

theorem settles_spanFrom (first : Position) (s : Input) : Settles 0 (spanFrom first) s :=
  Nat.le_refl _

theorem settles_ident (s : Input) : Settles 1 ident s :=
  (settles_expect rfl s).bind_take (fun _ _ _ => settles_pure _ _)

/-- Ends a parser that has read all its parts. -/
theorem settles_span_pure {α : Type} (first : Position) (make : Span → α) (s : Input) :
    Settles 0 (do let span ← spanFrom first; return make span : Parser α) s :=
  (settles_spanFrom first s).bind_keep (fun _ _ _ => settles_pure _ _)

/-! ## Loops -/

theorem settles_commaList {α : Type} {item : Parser α} {n : Nat}
    (hitem : ∀ s, s.size < n → Settles 1 item s) :
    ∀ (bound : Nat) (s : Input), s.size < bound → s.size < n → Settles 1 (commaList item bound) s
  | 0, s, hb, _ => absurd hb (Nat.not_lt_zero _)
  | bound + 1, s, hb, hn => by
    refine (settles_peekIs _ s).bind_keep (fun closed s₁ h₁ => ?_)
    cases closed with
    | true => exact (settles_expect rfl s₁).bind_take (fun _ _ _ => settles_pure _ _)
    | false =>
      refine (hitem s₁ (by omega)).bind_take (fun a s₂ h₂ => ?_)
      refine (settles_peekIs _ s₂).bind_keep (fun closed s₃ h₃ => ?_)
      cases closed with
      | true =>
        exact ((settles_expect rfl s₃).bind_take (fun _ _ _ => settles_pure _ _)).mono (by omega)
      | false =>
        refine ((settles_expect rfl s₃).bind_take (fun _ s₄ h₄ => ?_)).mono (by omega)
        refine Settles.mono ?_ (Nat.zero_le 1)
        exact (settles_commaList hitem bound s₄ (by omega) (by omega)).bind_take
          (fun _ _ _ => settles_pure _ _)

theorem settles_params {n : Nat} (s : Input) (hs : s.size ≤ n) : Settles 1 (params n) s := by
  refine (settles_expect rfl s).bind_take (fun _ s₁ h₁ => ?_)
  exact (settles_commaList (fun s _ => settles_ident s) n s₁ (by omega) (n := n) (by omega)).mono
    (by omega)

theorem settles_stmtsToBrace {stmt : Parser Stmt} {n : Nat}
    (hstmt : ∀ s, s.size < n → Settles 1 stmt s) :
    ∀ (bound : Nat) (s : Input), s.size < bound → s.size < n →
      Settles 0 (stmtsToBrace stmt bound) s
  | 0, s, hb, _ => absurd hb (Nat.not_lt_zero _)
  | bound + 1, s, hb, hn => by
    refine (settles_peek s).bind_keep (fun tok s₁ h₁ => ?_)
    split
    · exact (settles_next s₁).bind_keep (fun _ _ _ => settles_pure _ _)
    · split
      · trivial
      · refine Settles.mono ?_ (Nat.zero_le 1)
        refine (hstmt s₁ (by omega)).bind_take (fun _ s₂ h₂ => ?_)
        exact (settles_stmtsToBrace hstmt bound s₂ (by omega) (by omega)).bind_keep
          (fun _ _ _ => settles_pure _ _)

theorem settles_stmtsToEnd {stmt : Parser Stmt} {n : Nat}
    (hstmt : ∀ s, s.size < n → Settles 1 stmt s) :
    ∀ (bound : Nat) (s : Input), s.size < bound → s.size < n →
      Settles 0 (stmtsToEnd stmt bound) s
  | 0, s, hb, _ => absurd hb (Nat.not_lt_zero _)
  | bound + 1, s, hb, hn => by
    refine (settles_peek s).bind_keep (fun tok s₁ h₁ => ?_)
    split
    · exact settles_pure _ _
    · refine Settles.mono ?_ (Nat.zero_le 1)
      refine (hstmt s₁ (by omega)).bind_take (fun _ s₂ h₂ => ?_)
      exact (settles_stmtsToEnd hstmt bound s₂ (by omega) (by omega)).bind_keep
        (fun _ _ _ => settles_pure _ _)

theorem settles_blockOf {stmt : Parser Stmt} {n : Nat}
    (hstmt : ∀ s, s.size < n → Settles 1 stmt s) (s : Input) (hs : s.size ≤ n) :
    Settles 1 (blockOf stmt n) s :=
  (settles_expect rfl s).bind_take (fun _ s₁ h₁ =>
    settles_stmtsToBrace hstmt n s₁ (by omega) (by omega))

/-! ## Expressions and statements -/

section

variable {E : Nat → Parser Expr} {B : Parser Block} {n : Nat}

theorem settles_fnRest (hB : ∀ s, s.size < n → Settles 1 B s) (first : Position) (s : Input)
    (hs : s.size < n) : Settles 0 (fnRest B n first) s := by
  refine Settles.mono ?_ (Nat.zero_le 1)
  refine (settles_params s (by omega)).bind_take (fun _ s₁ h₁ => ?_)
  refine Settles.mono ?_ (Nat.zero_le 1)
  exact (hB s₁ (by omega)).bind_take (fun _ s₂ _ => settles_span_pure _ _ s₂)

theorem settles_literal {α : Type} (tok : Token) (value : Option α) (make : α → Span → Expr)
    (s : Input) : Settles 0 (literal tok value make) s := by
  cases value
  · trivial
  · exact settles_pure _ _

theorem settles_primary (hE : ∀ k s, s.size < n → Settles 1 (E k) s)
    (hB : ∀ s, s.size < n → Settles 1 B s) (s : Input) (hs : s.size ≤ n) :
    Settles 1 (primary E B n) s := by
  refine sat_bind.2 (sat_next (fun t ts hts => ?_) (fun p _ => trivial) (fun _ => trivial))
  -- a token has been taken, so the rest may take none
  have hlt : ts.length < s.size := by simp [Input.size, hts]
  refine Reply.Sat.mono (Q := fun _ s' => s'.size ≤ ts.length) (F := fun _ => True) ?_
    (fun _ _ h => by omega) (fun _ h => h)
  generalize hs₁ : ({ s with tokens := ts, last := t.span.last } : Input) = s₁
  have hsize : s₁.size = ts.length := by rw [← hs₁]; rfl
  rw [← hsize] at hlt ⊢
  change Settles 0 _ s₁
  split
  · exact settles_literal _ _ _ s₁
  · exact settles_literal _ _ _ s₁
  · exact settles_pure _ _
  · exact settles_pure _ _
  · exact settles_pure _ _
  · exact settles_pure _ _
  · refine Settles.mono ?_ (Nat.zero_le 1)
    refine (hE _ s₁ (by omega)).bind_take (fun _ s₂ h₂ => ?_)
    refine Settles.mono ?_ (Nat.zero_le 1)
    exact (settles_expect rfl s₂).bind_take (fun _ _ _ => settles_pure _ _)
  · refine Settles.mono ?_ (Nat.zero_le 1)
    exact (hE _ s₁ (by omega)).bind_take (fun _ s₂ h₂ => settles_span_pure _ _ s₂)
  · exact settles_fnRest hB _ s₁ (by omega)
  · refine Settles.mono ?_ (Nat.zero_le 1)
    exact (settles_ident s₁).bind_take (fun _ s₂ h₂ => settles_span_pure _ _ s₂)
  · trivial

theorem settles_continuation (hE : ∀ k s, s.size < n → Settles 1 (E k) s) (bound : Nat)
    (left : Expr) (c : Continuation) (s : Input) (hb : s.size < bound) (hs : s.size < n) :
    Settles 0 (continuation E bound left c) s := by
  refine Settles.mono ?_ (Nat.zero_le 1)
  have hargs : ∀ s', s'.size ≤ s.size → Settles 1 (commaList (E loosest) bound) s' :=
    fun s' h => settles_commaList (fun s'' => hE _ s'') bound s' (by omega) (by omega)
  cases c with
  | assign =>
    simp only [continuation]
    split
    · trivial
    · exact (hE _ s hs).bind_take (fun _ s₁ _ => settles_span_pure _ _ s₁)
  | operator op => exact (hE _ s hs).bind_take (fun _ s₁ _ => settles_span_pure _ _ s₁)
  | call => exact (hargs s (Nat.le_refl _)).bind_take (fun _ s₁ _ => settles_span_pure _ _ s₁)
  | method =>
    refine (settles_ident s).bind_take (fun _ s₁ h₁ => ?_)
    refine Settles.mono ?_ (Nat.zero_le 1)
    refine (settles_expect rfl s₁).bind_take (fun _ s₂ h₂ => ?_)
    refine Settles.mono ?_ (Nat.zero_le 1)
    exact (hargs s₂ (by omega)).bind_take (fun _ s₃ _ => settles_span_pure _ _ s₃)

theorem settles_continueFrom (hE : ∀ k s, s.size < n → Settles 1 (E k) s) (strength : Nat) :
    ∀ (bound : Nat) (left : Expr) (s : Input), s.size < bound → s.size ≤ n →
      Settles 0 (continueFrom E strength bound left) s
  | 0, _, s, hb, _ => absurd hb (Nat.not_lt_zero _)
  | bound + 1, left, s, hb, hn => by
    refine sat_bind.2 (sat_peek (fun t ts hts => ?_) (fun p _ => ?_) (fun _ => trivial))
    · have hpos : 0 < s.size := by simp [Input.size, hts]
      change Settles 0 _ s
      split
      · exact settles_pure left s
      · next c _ =>
        split
        · exact settles_pure left s
        · -- the line is looked at without taking anything
          refine sat_bind.2 ?_
          unfold onSameLine
          rw [show peek s = .done t s by unfold peek; rw [hts]]
          change ((if _ then _ else _ : Parser Expr) s).Sat _ _
          split
          · have h := (settles_next_of_pos hpos).bind_take (f := fun _ => do
              let longer ← continuation E bound left c
              continueFrom E strength bound longer) (fun _ s₁ h₁ =>
              (settles_continuation hE bound left c s₁ (by omega) (by omega)).bind_keep
                (fun longer s₂ h₂ =>
                  settles_continueFrom hE strength bound longer s₂ (by omega) (by omega)))
            exact h.mono (Nat.zero_le 1)
          · exact settles_pure left s
    · exact settles_pure left s

theorem settles_exprOf (hE : ∀ k s, s.size < n → Settles 1 (E k) s)
    (hB : ∀ s, s.size < n → Settles 1 B s) (strength : Nat) (s : Input) (hs : s.size ≤ n) :
    Settles 1 (exprOf E B n strength) s :=
  (settles_primary hE hB s hs).bind_take (fun left s₁ h₁ =>
    settles_continueFrom hE strength n left s₁ (by omega) (by omega))

theorem settles_fnStmt (hE : ∀ k s, s.size < n → Settles 1 (E k) s)
    (hB : ∀ s, s.size < n → Settles 1 B s) (s : Input) (hpos : 0 < s.size) (hs : s.size < n) :
    Settles 1 (fnStmt E B n) s := by
  refine (settles_next_of_pos hpos).bind_take (fun tok s₁ h₁ => ?_)
  refine (settles_peekIs _ s₁).bind_keep (fun named s₂ h₂ => ?_)
  cases named with
  | true =>
    refine Settles.mono ?_ (Nat.zero_le 1)
    refine (settles_ident s₂).bind_take (fun _ s₃ h₃ => ?_)
    refine Settles.mono ?_ (Nat.zero_le 1)
    refine (settles_params s₃ (by omega)).bind_take (fun _ s₄ h₄ => ?_)
    refine Settles.mono ?_ (Nat.zero_le 1)
    exact (hB s₄ (by omega)).bind_take (fun _ s₅ _ => settles_span_pure _ _ s₅)
  | false =>
    refine (settles_fnRest hB _ s₂ (by omega)).bind_keep (fun left s₃ h₃ => ?_)
    exact (settles_continueFrom hE _ n left s₃ (by omega) (by omega)).bind_keep
      (fun _ s₄ _ => settles_span_pure _ _ s₄)

theorem settles_returnRest (hE : ∀ k s, s.size < n → Settles 1 (E k) s) (first : Position)
    (s : Input) (hs : s.size < n) : Settles 0 (returnRest E first) s := by
  refine (settles_onSameLine s).bind_keep (fun _ s₁ h₁ => ?_)
  refine (settles_peek s₁).bind_keep (fun _ s₂ h₂ => ?_)
  split
  · refine Settles.mono ?_ (Nat.zero_le 1)
    exact (hE _ s₂ (by omega)).bind_take (fun _ s₃ _ => settles_span_pure _ _ s₃)
  · exact settles_span_pure _ _ s₂

theorem settles_guarded (hE : ∀ k s, s.size < n → Settles 1 (E k) s)
    (hB : ∀ s, s.size < n → Settles 1 B s) (first : Position) (make : Expr → Block → Span → Stmt)
    (s : Input) (hs : s.size < n) : Settles 0 (guarded E B first make) s := by
  refine Settles.mono ?_ (Nat.zero_le 1)
  refine (hE _ s hs).bind_take (fun _ s₁ h₁ => ?_)
  refine Settles.mono ?_ (Nat.zero_le 1)
  exact (hB s₁ (by omega)).bind_take (fun _ s₂ _ => settles_span_pure _ _ s₂)

theorem settles_stmtOf (hE : ∀ k s, s.size < n → Settles 1 (E k) s)
    (hB : ∀ s, s.size < n → Settles 1 B s) (s : Input) (hs : s.size < n) :
    Settles 1 (stmtOf E B n) s := by
  -- a statement that is an expression
  have hexpr : ∀ first : Position, Settles 1 (do
      let value ← E loosest
      let span ← spanFrom first
      return Stmt.expr value span) s :=
    fun first => (hE _ s hs).bind_take (fun _ s₁ _ => settles_span_pure _ _ s₁)
  refine sat_bind.2 (sat_peek (fun t ts hts => ?_) (fun p _ => hexpr _) (fun _ => trivial))
  have hpos : 0 < s.size := by simp [Input.size, hts]
  have hnext := settles_next_of_pos hpos
  change Settles 1 _ s
  split
  · refine hnext.bind_take (fun _ s₁ h₁ => ?_)
    refine Settles.mono ?_ (Nat.zero_le 1)
    refine (settles_ident s₁).bind_take (fun _ s₂ h₂ => ?_)
    refine Settles.mono ?_ (Nat.zero_le 1)
    refine (settles_expect rfl s₂).bind_take (fun _ s₃ h₃ => ?_)
    refine Settles.mono ?_ (Nat.zero_le 1)
    exact (hE _ s₃ (by omega)).bind_take (fun _ s₄ _ => settles_span_pure _ _ s₄)
  · exact settles_fnStmt hE hB s hpos hs
  · exact hnext.bind_take (fun _ s₁ h₁ => settles_guarded hE hB _ _ s₁ (by omega))
  · exact hnext.bind_take (fun _ s₁ h₁ => settles_guarded hE hB _ _ s₁ (by omega))
  · exact hnext.bind_take (fun _ s₁ h₁ => settles_returnRest hE _ s₁ (by omega))
  · exact hnext.bind_take (fun _ s₁ h₁ => settles_pure _ s₁)
  · exact hexpr _

end

/-- Expressions and blocks settle on inputs shorter than their bound. -/
theorem settles_knot : ∀ n : Nat,
    (∀ k s, s.size < n → Settles 1 (expr n k) s) ∧ (∀ s, s.size < n → Settles 1 (block n) s)
  | 0 => ⟨fun _ _ h => absurd h (Nat.not_lt_zero _), fun _ h => absurd h (Nat.not_lt_zero _)⟩
  | n + 1 => by
    obtain ⟨hE, hB⟩ := settles_knot n
    refine ⟨fun k s hs => ?_, fun s hs => ?_⟩
    · rw [expr]
      exact settles_exprOf hE hB k s (by omega)
    · rw [block]
      exact settles_blockOf (fun s' hs' => settles_stmtOf hE hB s' hs') s (by omega)

/-- A whole source settles. -/
theorem settles_program {n : Nat} (s : Input) (hs : s.size < n) : Settles 0 (program n) s :=
  settles_stmtsToEnd
    (fun s' hs' => settles_stmtOf (settles_knot n).1 (settles_knot n).2 s' hs') n s hs hs

/-- The bound of a scan is large enough. -/
theorem program_ne_exhausted (s : Scan) : program s.bound s.input ≠ .exhausted := by
  intro h
  have hsettles := settles_program s.input (n := s.bound) (Nat.lt_succ_self _)
  unfold Settles at hsettles
  rw [h] at hsettles
  exact hsettles

end Parser

/-- The program that the tokens of a source make, or the first fault. -/
def Program.ofScan (s : Scan) : Except SyntaxFault Program :=
  match h : Parser.program s.bound s.input with
  | .done p _ => .ok p
  | .fault e => .error e
  | .exhausted => absurd h (Parser.program_ne_exhausted s)

theorem Program.ofScan_eq_ok_iff {s : Scan} {P : Program} :
    Program.ofScan s = .ok P ↔ ∃ s', Parser.program s.bound s.input = .done P s' := by
  unfold Program.ofScan
  split
  next P' s' h => simp [h]
  next e h => simp [h]
  next h => exact absurd h (Parser.program_ne_exhausted s)

theorem Program.ofScan_eq_error_iff {s : Scan} {e : SyntaxFault} :
    Program.ofScan s = .error e ↔ Parser.program s.bound s.input = .fault e := by
  unfold Program.ofScan
  split
  next P s' h => simp [h]
  next e' h => simp [h]
  next h => exact absurd h (Parser.program_ne_exhausted s)

/-- The program that a source holds, or the first fault. -/
def Program.ofGlyphs (gs : List Source.Glyph) (ending : Ending) : Except SyntaxFault Program :=
  Program.ofScan (.ofGlyphs gs ending)

end HamScript
