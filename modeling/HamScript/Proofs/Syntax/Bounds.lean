/-
# Parsers without their bounds

A larger bound never changes an answer: the parser with the smaller bound is exhausted, or it
answers what the one with the larger bound answers.  Since the number of tokens is a bound that is
never reached, the parsers for expressions and blocks have a limit, `wholeExpr` and `wholeBlock`,
which satisfies their equations with no bound on the nesting and with any sufficient bound on the
loops.
-/
import HamScript.Syntax.Total

namespace HamScript.Parser

open Parsing
open Source (Position Span)

/-! ## A parser that is exhausted more often -/

/-- Where `p` comes to an answer, it is the answer of `q`. -/
def Below {α : Type} (p q : Parser α) : Prop :=
  ∀ s, p s = .exhausted ∨ p s = q s

theorem Below.refl {α : Type} (p : Parser α) : Below p p :=
  fun _ => .inr rfl

theorem below_exhausted {α : Type} (p : Parser α) : Below exhausted p :=
  fun _ => .inl rfl

theorem Below.eq {α : Type} {p q : Parser α} (h : Below p q) {s : Input}
    (hs : p s ≠ .exhausted) : p s = q s :=
  (h s).resolve_left hs

theorem Below.bind {α β : Type} {p q : Parser α} {f g : α → Parser β} (h : Below p q)
    (hf : ∀ a, Below (f a) (g a)) : Below (p >>= f) (q >>= g) := by
  intro s
  change Parser.bind p f s = .exhausted ∨ Parser.bind p f s = Parser.bind q g s
  unfold Parser.bind
  rcases h s with hp | hp
  · rw [hp]
    exact .inl rfl
  · rw [hp]
    cases q s with
    | done a s' => exact hf a s'
    | fault e => exact .inr rfl
    | exhausted => exact .inl rfl

/-- The same first step on both sides. -/
theorem Below.bind_right {α β : Type} {p : Parser α} {f g : α → Parser β}
    (hf : ∀ a, Below (f a) (g a)) : Below (p >>= f) (p >>= g) :=
  (Below.refl p).bind hf

/-! ## Larger bounds, larger parsers -/

section
variable {α : Type} {n m : Nat}

theorem below_commaList {p q : Parser α} (h : Below p q) :
    {n m : Nat} → n ≤ m → Below (commaList p n) (commaList q m)
  | 0, _, _ => below_exhausted _
  | n + 1, m + 1, hnm => by
      refine Below.bind_right fun closed => ?_
      cases closed with
      | true => exact Below.refl _
      | false =>
          refine h.bind fun a => Below.bind_right fun closed => ?_
          cases closed with
          | true => exact Below.refl _
          | false =>
              refine Below.bind_right fun _ => ?_
              exact (below_commaList h (Nat.le_of_succ_le_succ hnm)).bind fun _ => Below.refl _

theorem below_params (h : n ≤ m) : Below (params n) (params m) :=
  Below.bind_right fun _ => below_commaList (Below.refl _) h

theorem below_stmtsToBrace {p q : Parser Stmt} (h : Below p q) :
    {n m : Nat} → n ≤ m → Below (stmtsToBrace p n) (stmtsToBrace q m)
  | 0, _, _ => below_exhausted _
  | n + 1, m + 1, hnm => by
      refine Below.bind_right fun tok => ?_
      split
      · exact Below.refl _
      · split
        · exact Below.refl _
        · refine h.bind fun s => ?_
          exact (below_stmtsToBrace h (Nat.le_of_succ_le_succ hnm)).bind fun _ => Below.refl _

theorem below_stmtsToEnd {p q : Parser Stmt} (h : Below p q) :
    {n m : Nat} → n ≤ m → Below (stmtsToEnd p n) (stmtsToEnd q m)
  | 0, _, _ => below_exhausted _
  | n + 1, m + 1, hnm => by
      refine Below.bind_right fun tok => ?_
      split
      · exact Below.refl _
      · refine h.bind fun s => ?_
        exact (below_stmtsToEnd h (Nat.le_of_succ_le_succ hnm)).bind fun _ => Below.refl _

theorem below_blockOf {p q : Parser Stmt} (h : Below p q) (hnm : n ≤ m) :
    Below (blockOf p n) (blockOf q m) :=
  Below.bind_right fun _ => below_stmtsToBrace h hnm

end

section
variable {E F : Nat → Parser Expr} {B C : Parser Block} {n m : Nat}

theorem below_fnRest (hB : Below B C) (hnm : n ≤ m) (first : Position) :
    Below (fnRest B n first) (fnRest C m first) :=
  (below_params hnm).bind fun _ => hB.bind fun _ => Below.refl _

theorem below_primary (hE : ∀ k, Below (E k) (F k)) (hB : Below B C) (hnm : n ≤ m) :
    Below (primary E B n) (primary F C m) := by
  refine Below.bind_right fun tok => ?_
  split
  case h_7 => exact (hE _).bind fun _ => Below.refl _
  case h_8 => exact (hE _).bind fun _ => Below.refl _
  case h_9 => exact below_fnRest hB hnm _
  all_goals exact Below.refl _

theorem below_continuation (hE : ∀ k, Below (E k) (F k)) (hnm : n ≤ m) (left : Expr)
    (c : Continuation) : Below (continuation E n left c) (continuation F m left c) := by
  have hargs : Below (commaList (E loosest) n) (commaList (F loosest) m) :=
    below_commaList (hE _) hnm
  cases c with
  | assign =>
      simp only [continuation]
      split
      · exact Below.refl _
      · exact (hE _).bind fun _ => Below.refl _
  | operator op => exact (hE _).bind fun _ => Below.refl _
  | call => exact hargs.bind fun _ => Below.refl _
  | method =>
      refine Below.bind_right fun _ => Below.bind_right fun _ => ?_
      exact hargs.bind fun _ => Below.refl _

theorem below_continueFrom (hE : ∀ k, Below (E k) (F k)) (strength : Nat) :
    {n m : Nat} → n ≤ m → (left : Expr) →
      Below (continueFrom E strength n left) (continueFrom F strength m left)
  | 0, _, _, _ => below_exhausted _
  | n + 1, m + 1, hnm, left => by
      have hnm' := Nat.le_of_succ_le_succ hnm
      refine Below.bind_right fun tok => ?_
      split
      · exact Below.refl _
      · split
        · exact Below.refl _
        · refine Below.bind_right fun sameLine => ?_
          cases sameLine with
          | true =>
              refine Below.bind_right fun _ => ?_
              exact (below_continuation hE hnm' left _).bind fun longer =>
                below_continueFrom hE strength hnm' longer
          | false => exact Below.refl _

theorem below_exprOf (hE : ∀ k, Below (E k) (F k)) (hB : Below B C) (hnm : n ≤ m)
    (strength : Nat) : Below (exprOf E B n strength) (exprOf F C m strength) :=
  (below_primary hE hB hnm).bind fun left => below_continueFrom hE strength hnm left

theorem below_fnStmt (hE : ∀ k, Below (E k) (F k)) (hB : Below B C) (hnm : n ≤ m) :
    Below (fnStmt E B n) (fnStmt F C m) := by
  refine Below.bind_right fun tok => Below.bind_right fun named => ?_
  cases named with
  | true =>
      refine Below.bind_right fun _ => (below_params hnm).bind fun _ => ?_
      exact hB.bind fun _ => Below.refl _
  | false =>
      refine (below_fnRest hB hnm _).bind fun left => ?_
      exact (below_continueFrom hE _ hnm left).bind fun _ => Below.refl _

theorem below_returnRest (hE : ∀ k, Below (E k) (F k)) (first : Position) :
    Below (returnRest E first) (returnRest F first) := by
  refine Below.bind_right fun sameLine => Below.bind_right fun tok => ?_
  split
  · exact (hE _).bind fun _ => Below.refl _
  · exact Below.refl _

theorem below_guarded (hE : ∀ k, Below (E k) (F k)) (hB : Below B C) (first : Position)
    (make : Expr → Block → Span → Stmt) :
    Below (guarded E B first make) (guarded F C first make) :=
  (hE _).bind fun _ => hB.bind fun _ => Below.refl _

theorem below_stmtOf (hE : ∀ k, Below (E k) (F k)) (hB : Below B C) (hnm : n ≤ m) :
    Below (stmtOf E B n) (stmtOf F C m) := by
  refine Below.bind_right fun tok => ?_
  split
  case h_1 =>
    refine Below.bind_right fun _ => Below.bind_right fun _ => Below.bind_right fun _ => ?_
    exact (hE _).bind fun _ => Below.refl _
  case h_2 => exact below_fnStmt hE hB hnm
  case h_3 => exact Below.bind_right fun _ => below_guarded hE hB _ _
  case h_4 => exact Below.bind_right fun _ => below_guarded hE hB _ _
  case h_5 => exact Below.bind_right fun _ => below_returnRest hE _
  case h_6 => exact Below.refl _
  case h_7 => exact (hE _).bind fun _ => Below.refl _

end

theorem below_knot : {n m : Nat} → n ≤ m →
    (∀ k, Below (expr n k) (expr m k)) ∧ Below (block n) (block m)
  | 0, _, _ => ⟨fun _ => below_exhausted _, below_exhausted _⟩
  | n + 1, m + 1, hnm => by
      have hnm' := Nat.le_of_succ_le_succ hnm
      obtain ⟨hE, hB⟩ := below_knot hnm'
      refine ⟨fun k => ?_, ?_⟩
      · rw [expr, expr]
        exact below_exprOf hE hB hnm' k
      · rw [block, block]
        exact below_blockOf (below_stmtOf hE hB hnm') hnm'

/-! ## The limit -/

theorem Settles.ne_exhausted {α : Type} {d : Nat} {p : Parser α} {s : Input}
    (h : Settles d p s) : p s ≠ .exhausted := by
  intro hs
  unfold Settles at h
  rw [hs] at h
  exact h

/-- Of a growing family of parsers, two that come to an answer agree on it. -/
theorem eq_of_growing {α : Type} {p : Nat → Parser α}
    (hp : ∀ {n m : Nat}, n ≤ m → Below (p n) (p m)) {s : Input} {n m : Nat}
    (hn : p n s ≠ .exhausted) (hm : p m s ≠ .exhausted) : p n s = p m s := by
  rcases Nat.le_total n m with h | h
  · exact (hp h).eq hn
  · exact ((hp h).eq hm).symm

/-- An expression, nested as deep as its tokens allow. -/
def wholeExpr (strength : Nat) : Parser Expr :=
  fun s => expr (s.size + 1) strength s

/-- A block, nested as deep as its tokens allow. -/
def wholeBlock : Parser Block :=
  fun s => block (s.size + 1) s

theorem Settles.of_eq {α : Type} {d : Nat} {p q : Parser α} {s : Input} (h : Settles d p s)
    (hq : q s = p s) : Settles d q s := by
  unfold Settles
  rw [hq]
  exact h

theorem settles_wholeExpr (strength : Nat) (s : Input) : Settles 1 (wholeExpr strength) s :=
  ((settles_knot (s.size + 1)).1 strength s (Nat.lt_succ_self _)).of_eq rfl

theorem settles_wholeBlock (s : Input) : Settles 1 wholeBlock s :=
  ((settles_knot (s.size + 1)).2 s (Nat.lt_succ_self _)).of_eq rfl

theorem below_wholeExpr (n strength : Nat) : Below (expr n strength) (wholeExpr strength) := by
  intro s
  by_cases hs : expr n strength s = .exhausted
  · exact .inl hs
  · exact .inr (eq_of_growing (fun h => (below_knot h).1 strength) hs
      (settles_wholeExpr strength s).ne_exhausted)

theorem below_wholeBlock (n : Nat) : Below (block n) wholeBlock := by
  intro s
  by_cases hs : block n s = .exhausted
  · exact .inl hs
  · exact .inr (eq_of_growing (fun h => (below_knot h).2) hs (settles_wholeBlock s).ne_exhausted)

/-- The limit for expressions is the parser for expressions over the limits. -/
theorem wholeExpr_eq {s : Input} {n : Nat} (h : s.size ≤ n) (strength : Nat) :
    wholeExpr strength s = exprOf wholeExpr wholeBlock n strength s := by
  have hbelow : Below (expr (s.size + 1) strength) (exprOf wholeExpr wholeBlock n strength) := by
    rw [expr]
    exact below_exprOf (below_wholeExpr _) (below_wholeBlock _) h strength
  exact hbelow.eq (settles_wholeExpr strength s).ne_exhausted

/-- The limit for blocks is the parser for blocks over the limits. -/
theorem wholeBlock_eq {s : Input} {n : Nat} (h : s.size ≤ n) :
    wholeBlock s = blockOf (stmtOf wholeExpr wholeBlock n) n s := by
  have hbelow : Below (block (s.size + 1)) (blockOf (stmtOf wholeExpr wholeBlock n) n) := by
    rw [block]
    exact below_blockOf (below_stmtOf (below_wholeExpr _) (below_wholeBlock _) h) h
  exact hbelow.eq (settles_wholeBlock s).ne_exhausted

theorem program_eq {s : Input} {n : Nat} (h : s.size < n) :
    program n s = stmtsToEnd (stmtOf wholeExpr wholeBlock n) n s :=
  have hbelow : Below (program n) (stmtsToEnd (stmtOf wholeExpr wholeBlock n) n) :=
    below_stmtsToEnd (below_stmtOf (below_wholeExpr n) (below_wholeBlock n) (Nat.le_refl n))
      (Nat.le_refl n)
  hbelow.eq (settles_program s h).ne_exhausted

/-- Any bound above the number of tokens does for the continuations of an expression. -/
theorem continueFrom_bound {s : Input} {n m : Nat} (hn : s.size < n) (hm : s.size < m)
    (strength : Nat) (left : Expr) :
    continueFrom wholeExpr strength n left s = continueFrom wholeExpr strength m left s := by
  have hsettles : ∀ {b}, s.size < b → Settles 0 (continueFrom wholeExpr strength b left) s :=
    fun hb => settles_continueFrom (fun k s' _ => settles_wholeExpr k s') strength _ left s hb
      (Nat.le_refl s.size)
  exact eq_of_growing (fun h => below_continueFrom (fun k => Below.refl _) strength h left)
    (hsettles hn).ne_exhausted (hsettles hm).ne_exhausted

end HamScript.Parser
