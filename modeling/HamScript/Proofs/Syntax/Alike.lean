/-
# Parsing looks at kinds, texts and line breaks only

Two inputs are alike if their tokens agree one by one in kind and text, break lines at the same
places, and agree in their positions when the one side is seen through `f` and the other through
`g`.  On inputs that are alike the parsers give answers that are alike.

An input may also be alike to one that ends in a fault where it goes on: then the second answer
can be this fault instead.  `escape` says which faults may come in this way.
-/
import HamScript.Proofs.Syntax.Relocate
import HamScript.Syntax.Total

namespace HamScript

open Parsing
open Source (Position Span)

namespace Parser

/-- The inputs agree up to what `f` and `g` make of their positions. -/
inductive Alike (f g : Position → Position) (escape : ScanFault → Prop) : Input → Input → Prop
  | token {t t' : Token} {ts ts' : List Token} {stop stop' : Except ScanFault Position}
      {last last' : Position} :
      f last = g last' → t.relocate f = t'.relocate g →
      (t.span.first.line = last.line ↔ t'.span.first.line = last'.line) →
      Alike f g escape ⟨ts, stop, t.span.last⟩ ⟨ts', stop', t'.span.last⟩ →
      Alike f g escape ⟨t :: ts, stop, last⟩ ⟨t' :: ts', stop', last'⟩
  | ended {p p' last last' : Position} :
      f last = g last' → f p = g p' → (p.line = last.line ↔ p'.line = last'.line) →
      Alike f g escape ⟨[], .ok p, last⟩ ⟨[], .ok p', last'⟩
  | faulted {e e' : ScanFault} {last last' : Position} :
      f last = g last' → e.relocate f = e'.relocate g →
      Alike f g escape ⟨[], .error e, last⟩ ⟨[], .error e', last'⟩
  | escaped {e : ScanFault} {stop : Except ScanFault Position} {last last' : Position} :
      f last = g last' → escape e → Alike f g escape ⟨[], stop, last⟩ ⟨[], .error e, last'⟩

section
variable (f g : Position → Position) (escape : ScanFault → Prop)

/-- The answers agree, where `move` is how positions are moved in what has been read. -/
inductive Answers {α : Type} (move : (Position → Position) → α → α) : Reply α → Reply α → Prop
  | done {a a' : α} {s s' : Input} :
      move f a = move g a' → Alike f g escape s s' → Answers move (.done a s) (.done a' s')
  | fault {e e' : SyntaxFault} :
      e.relocate f = e'.relocate g → Answers move (.fault e) (.fault e')
  | exhausted : Answers move .exhausted .exhausted
  | escaped {e : ScanFault} (r : Reply α) : escape e → Answers move r (.fault (.scan e))

/-- On inputs that are alike, `p` and `q` give answers that agree. -/
def Agree {α : Type} (move : (Position → Position) → α → α) (p q : Parser α) : Prop :=
  ∀ s s', Alike f g escape s s' → Answers f g escape move (p s) (q s')

end

/-- How positions are moved where there are none. -/
def still {α : Type} (_ : Position → Position) (a : α) : α := a

section
variable {f g : Position → Position} {escape : ScanFault → Prop} {α β : Type}
variable {move : (Position → Position) → α → α} {move' : (Position → Position) → β → β}

theorem Alike.last {s s' : Input} (h : Alike f g escape s s') : f s.last = g s'.last := by
  cases h <;> assumption

theorem agree_pure {a a' : α} (h : move f a = move g a') :
    Agree f g escape move (pure a) (pure a') :=
  fun _ _ hs => .done h hs

theorem agree_raise {e e' : SyntaxFault} (h : e.relocate f = e'.relocate g) :
    Agree f g escape move (raise e) (raise e') :=
  fun _ _ _ => .fault h

theorem agree_exhausted : Agree f g escape move exhausted exhausted :=
  fun _ _ _ => .exhausted

theorem Agree.bind {p q : Parser α} {F G : α → Parser β} (h : Agree f g escape move p q)
    (hF : ∀ a a', move f a = move g a' → Agree f g escape move' (F a) (G a')) :
    Agree f g escape move' (p >>= F) (q >>= G) := by
  intro s s' hs
  change Answers f g escape move' (Parser.bind p F s) (Parser.bind q G s')
  unfold Parser.bind
  have hp := h s s' hs
  generalize p s = r, q s' = r' at hp
  cases hp with
  | done ha hs => exact hF _ _ ha _ _ hs
  | fault he => exact .fault he
  | exhausted => exact .exhausted
  | escaped r he => exact .escaped _ he

/-- What both sides read without positions is the same. -/
theorem Agree.bind_still {p q : Parser α} {F G : α → Parser β} (h : Agree f g escape still p q)
    (hF : ∀ a, Agree f g escape move' (F a) (G a)) :
    Agree f g escape move' (p >>= F) (q >>= G) := by
  refine h.bind fun a a' ha => ?_
  obtain rfl : a = a' := ha
  exact hF a

end

/-! ## Tokens -/

section
variable {f g : Position → Position} {escape : ScanFault → Prop} {t t' : Token}

theorem kind_of_token (h : t.relocate f = t'.relocate g) : t.kind = t'.kind := by
  injection h

theorem text_of_token (h : t.relocate f = t'.relocate g) : t.text = t'.text := by
  injection h

theorem span_of_token (h : t.relocate f = t'.relocate g) :
    t.span.relocate f = t'.span.relocate g := by
  injection h

theorem first_of_span {a b : Span} (h : a.relocate f = b.relocate g) : f a.first = g b.first := by
  injection h

theorem ident_of_token (h : t.relocate f = t'.relocate g) :
    (Ident.mk t.text t.span).relocate f = (Ident.mk t'.text t'.span).relocate g :=
  congrArg (fun t : Token => Ident.mk t.text t.span) h

theorem endAt_of_position {p p' : Position} (h : f p = g p') :
    (Token.endAt p).relocate f = (Token.endAt p').relocate g := by
  simp only [Token.relocate, Token.endAt, Span.single, Span.relocate, h]

theorem agree_peek : Agree f g escape Token.relocate peek peek := by
  intro s s' hs
  cases hs with
  | token hlast ht hline hrest => exact .done ht (.token hlast ht hline hrest)
  | ended hlast hp hline => exact .done (endAt_of_position hp) (.ended hlast hp hline)
  | faulted hlast he => exact .fault (congrArg SyntaxFault.scan he)
  | escaped hlast he => exact .escaped _ he

theorem agree_next : Agree f g escape Token.relocate next next := by
  intro s s' hs
  cases hs with
  | token hlast ht hline hrest => exact .done ht hrest
  | ended hlast hp hline =>
      exact .done (endAt_of_position hp) (.ended hp hp (iff_of_true rfl rfl))
  | faulted hlast he => exact .fault (congrArg SyntaxFault.scan he)
  | escaped hlast he => exact .escaped _ he

theorem agree_onSameLine : Agree f g escape still onSameLine onSameLine := by
  intro s s' hs
  cases hs with
  | token hlast ht hline hrest =>
      exact .done (decide_eq_decide.mpr hline) (.token hlast ht hline hrest)
  | ended hlast hp hline =>
      exact .done (decide_eq_decide.mpr hline) (.ended hlast hp hline)
  | faulted hlast he => exact .fault (congrArg SyntaxFault.scan he)
  | escaped hlast he => exact .escaped _ he

theorem agree_spanFrom {first first' : Position} (h : f first = g first') :
    Agree f g escape Span.relocate (spanFrom first) (spanFrom first') := by
  intro s s' hs
  refine .done ?_ hs
  simp only [Span.relocate, h, hs.last]

theorem agree_expect (kinds : List Kind) :
    Agree f g escape Token.relocate (expect kinds) (expect kinds) := by
  refine agree_next.bind fun t t' ht => ?_
  rw [kind_of_token ht]
  split
  · exact agree_pure ht
  · exact agree_raise (congrArg (SyntaxFault.expectedKind kinds) ht)

theorem agree_peekIs (kind : Kind) : Agree f g escape still (peekIs kind) (peekIs kind) := by
  refine agree_peek.bind fun t t' ht => agree_pure ?_
  rw [kind_of_token ht]
  rfl

theorem agree_ident : Agree f g escape Ident.relocate ident ident :=
  (agree_expect _).bind fun _ _ ht => agree_pure (ident_of_token ht)

end

/-! ## Lists and blocks -/

section
variable {f g : Position → Position} {escape : ScanFault → Prop}

theorem agree_commaList {α : Type} {move : (Position → Position) → α → α} {p q : Parser α}
    (h : Agree f g escape move p q) : (n : Nat) →
    Agree f g escape (fun k => List.map (move k)) (commaList p n) (commaList q n)
  | 0 => agree_exhausted
  | n + 1 => by
      refine (agree_peekIs _).bind_still fun closed => ?_
      cases closed with
      | true => exact (agree_expect _).bind fun _ _ _ => agree_pure rfl
      | false =>
          refine h.bind fun a a' ha => (agree_peekIs _).bind_still fun closed => ?_
          cases closed with
          | true =>
              exact (agree_expect _).bind fun _ _ _ => agree_pure (congrArg (fun a => [a]) ha)
          | false =>
              refine (agree_expect _).bind fun _ _ _ => (agree_commaList h n).bind ?_
              intro as as' has
              exact agree_pure (List.cons_eq_cons.mpr ⟨ha, has⟩)

theorem agree_params (n : Nat) :
    Agree f g escape (fun k => List.map (Ident.relocate k)) (params n) (params n) :=
  (agree_expect _).bind fun _ _ _ => agree_commaList agree_ident n

theorem agree_stmtsToBrace {p q : Parser Stmt} (h : Agree f g escape Stmt.relocate p q) :
    (n : Nat) → Agree f g escape Stmt.relocateAll (stmtsToBrace p n) (stmtsToBrace q n)
  | 0 => agree_exhausted
  | n + 1 => by
      refine agree_peek.bind fun t t' ht => ?_
      rw [kind_of_token ht]
      split
      · exact agree_next.bind fun _ _ _ => agree_pure rfl
      · split
        · exact agree_raise (congrArg (SyntaxFault.expectedKind [.rightBrace]) ht)
        · refine h.bind fun s s' hs => (agree_stmtsToBrace h n).bind fun ss ss' hss => ?_
          exact agree_pure (List.cons_eq_cons.mpr ⟨hs, hss⟩)

theorem agree_blockOf {p q : Parser Stmt} (h : Agree f g escape Stmt.relocate p q) (n : Nat) :
    Agree f g escape Stmt.relocateAll (blockOf p n) (blockOf q n) :=
  (agree_expect _).bind fun _ _ _ => agree_stmtsToBrace h n

theorem agree_stmtsToEnd {p q : Parser Stmt} (h : Agree f g escape Stmt.relocate p q) :
    (n : Nat) → Agree f g escape Program.relocate (stmtsToEnd p n) (stmtsToEnd q n)
  | 0 => agree_exhausted
  | n + 1 => by
      refine agree_peek.bind fun t t' ht => ?_
      rw [kind_of_token ht]
      split
      · exact agree_pure rfl
      · refine h.bind fun s s' hs => (agree_stmtsToEnd h n).bind fun ss ss' hss => ?_
        exact agree_pure (List.cons_eq_cons.mpr ⟨hs, hss⟩)

end

/-! ## Expressions -/

section
variable {f g : Position → Position} {escape : ScanFault → Prop}

theorem agree_literal {α : Type} {t t' : Token} (ht : t.relocate f = t'.relocate g)
    {make : α → Span → Expr} (value : Option α)
    (h : ∀ v, (make v t.span).relocate f = (make v t'.span).relocate g) :
    Agree f g escape Expr.relocate (literal t value make) (literal t' value make) := by
  cases value with
  | none => exact agree_raise (congrArg SyntaxFault.expectedExpression ht)
  | some v => exact agree_pure (h v)

theorem agree_fnRest {b b' : Parser Block} (hb : Agree f g escape Stmt.relocateAll b b') (n : Nat)
    {first first' : Position} (h : f first = g first') :
    Agree f g escape Expr.relocate (fnRest b n first) (fnRest b' n first') := by
  refine (agree_params n).bind fun ps ps' hps => hb.bind fun body body' hbody => ?_
  refine (agree_spanFrom h).bind fun s s' hs => agree_pure ?_
  simp only [Expr.relocate, hps, hbody, hs]

variable {e e' : Nat → Parser Expr} {b b' : Parser Block}

theorem agree_primary (he : ∀ k, Agree f g escape Expr.relocate (e k) (e' k))
    (hb : Agree f g escape Stmt.relocateAll b b') (n : Nat) :
    Agree f g escape Expr.relocate (primary e b n) (primary e' b' n) := by
  refine agree_next.bind fun t t' ht => ?_
  have hspan := span_of_token ht
  have hfirst := first_of_span hspan
  have htext := text_of_token ht
  dsimp only
  rw [kind_of_token ht, htext]
  cases t'.kind with
  | int => exact agree_literal ht _ fun v => congrArg (Expr.int v) hspan
  | float => exact agree_literal ht _ fun v => congrArg (Expr.float v) hspan
  | string => exact agree_pure (congrArg (Expr.string _) hspan)
  | trueWord => exact agree_pure (congrArg (Expr.bool true) hspan)
  | falseWord => exact agree_pure (congrArg (Expr.bool false) hspan)
  | ident => exact agree_pure (congrArg Expr.var (htext ▸ ident_of_token ht))
  | leftParen =>
      refine (he loosest).bind fun inner inner' hinner => ?_
      exact (agree_expect _).bind fun _ _ _ => agree_pure hinner
  | minus =>
      refine (he negateStrength).bind fun x x' hx => ?_
      refine (agree_spanFrom hfirst).bind fun s s' hs => agree_pure ?_
      simp only [Expr.relocate, hx, hs]
  | fnWord => exact agree_fnRest hb n hfirst
  | ampersand =>
      refine agree_ident.bind fun x x' hx => ?_
      refine (agree_spanFrom hfirst).bind fun s s' hs => agree_pure ?_
      simp only [Expr.relocate, hx, hs]
  | _ => exact agree_raise (congrArg SyntaxFault.expectedExpression ht)

theorem relocateAll_eq_map (k : Position → Position) (es : List Expr) :
    Expr.relocateAll k es = es.map (Expr.relocate k) := by
  induction es with
  | nil => rfl
  | cons x es ih => rw [Expr.relocateAll, ih, List.map_cons]

theorem agree_args (he : ∀ k, Agree f g escape Expr.relocate (e k) (e' k)) (n : Nat) :
    Agree f g escape Expr.relocateAll (commaList (e loosest) n) (commaList (e' loosest) n) := by
  have hmove : Expr.relocateAll = fun k => List.map (Expr.relocate k) :=
    funext fun k => funext (relocateAll_eq_map k)
  rw [hmove]
  exact agree_commaList (he loosest) n

theorem agree_continuation (he : ∀ k, Agree f g escape Expr.relocate (e k) (e' k)) (n : Nat)
    {left left' : Expr} (hleft : left.relocate f = left'.relocate g) (c : Continuation) :
    Agree f g escape Expr.relocate (continuation e n left c) (continuation e' n left' c) := by
  have hspan : left.span.relocate f = left'.span.relocate g := by
    rw [← Expr.span_relocate, hleft, Expr.span_relocate]
  have hfirst := first_of_span hspan
  cases c with
  | assign =>
      have htarget :
          left.target?.map (Ident.relocate f) = left'.target?.map (Ident.relocate g) := by
        rw [← Expr.target?_relocate, hleft, Expr.target?_relocate]
      unfold continuation
      generalize left.target? = x, left'.target? = x' at htarget
      match x, x', htarget with
      | none, none, _ => exact agree_raise (congrArg SyntaxFault.invalidTarget hspan)
      | some x, some x', htarget =>
          have hx := Option.some.inj htarget
          refine (he loosest).bind fun v v' hv => ?_
          refine (agree_spanFrom hfirst).bind fun s s' hs => agree_pure ?_
          simp only [Expr.relocate, hx, hv, hs]
  | operator op =>
      refine (he (opStrength op)).bind fun right right' hright => ?_
      refine (agree_spanFrom hfirst).bind fun s s' hs => agree_pure ?_
      simp only [Expr.relocate, hleft, hright, hs]
  | call =>
      refine (agree_args he n).bind fun as as' has => ?_
      refine (agree_spanFrom hfirst).bind fun s s' hs => agree_pure ?_
      simp only [Expr.relocate, hleft, has, hs]
  | method =>
      refine agree_ident.bind fun x x' hx => (agree_expect _).bind fun _ _ _ => ?_
      refine (agree_args he n).bind fun as as' has => ?_
      refine (agree_spanFrom hfirst).bind fun s s' hs => agree_pure ?_
      simp only [Expr.relocate, hleft, hx, has, hs]

theorem agree_continueFrom (he : ∀ k, Agree f g escape Expr.relocate (e k) (e' k))
    (strength : Nat) : (n : Nat) → {left left' : Expr} → left.relocate f = left'.relocate g →
    Agree f g escape Expr.relocate (continueFrom e strength n left)
      (continueFrom e' strength n left')
  | 0, _, _, _ => agree_exhausted
  | n + 1, left, left', hleft => by
      refine agree_peek.bind fun t t' ht => ?_
      rw [kind_of_token ht]
      cases Continuation.ofKind? t'.kind with
      | none => exact agree_pure hleft
      | some c =>
          dsimp only
          split
          · exact agree_pure hleft
          · refine agree_onSameLine.bind_still fun sameLine => ?_
            cases sameLine with
            | false => exact agree_pure hleft
            | true =>
                refine agree_next.bind fun _ _ _ => ?_
                refine (agree_continuation he n hleft c).bind fun longer longer' hlonger => ?_
                exact agree_continueFrom he strength n hlonger

theorem agree_exprOf (he : ∀ k, Agree f g escape Expr.relocate (e k) (e' k))
    (hb : Agree f g escape Stmt.relocateAll b b') (n strength : Nat) :
    Agree f g escape Expr.relocate (exprOf e b n strength) (exprOf e' b' n strength) :=
  (agree_primary he hb n).bind fun _ _ hleft => agree_continueFrom he strength n hleft

/-! ## Statements -/

theorem agree_fnStmt (he : ∀ k, Agree f g escape Expr.relocate (e k) (e' k))
    (hb : Agree f g escape Stmt.relocateAll b b') (n : Nat) :
    Agree f g escape Stmt.relocate (fnStmt e b n) (fnStmt e' b' n) := by
  refine agree_next.bind fun t t' ht => ?_
  have hfirst := first_of_span (span_of_token ht)
  refine (agree_peekIs _).bind_still fun named => ?_
  cases named with
  | true =>
      refine agree_ident.bind fun x x' hx => (agree_params n).bind fun ps ps' hps => ?_
      refine hb.bind fun body body' hbody => ?_
      refine (agree_spanFrom hfirst).bind fun s s' hs => agree_pure ?_
      simp only [Stmt.relocate, hx, hps, hbody, hs]
  | false =>
      refine (agree_fnRest hb n hfirst).bind fun left left' hleft => ?_
      refine (agree_continueFrom he loosest n hleft).bind fun v v' hv => ?_
      refine (agree_spanFrom hfirst).bind fun s s' hs => agree_pure ?_
      simp only [Stmt.relocate, hv, hs]

theorem agree_returnRest (he : ∀ k, Agree f g escape Expr.relocate (e k) (e' k))
    {first first' : Position} (hfirst : f first = g first') :
    Agree f g escape Stmt.relocate (returnRest e first) (returnRest e' first') := by
  refine agree_onSameLine.bind_still fun sameLine => agree_peek.bind fun t t' ht => ?_
  rw [kind_of_token ht]
  split
  · refine (he loosest).bind fun v v' hv => ?_
    refine (agree_spanFrom hfirst).bind fun s s' hs => agree_pure ?_
    simp only [Stmt.relocate, hv, hs]
  · exact (agree_spanFrom hfirst).bind fun s s' hs => agree_pure (congrArg Stmt.returnUnit hs)

theorem agree_guarded (he : ∀ k, Agree f g escape Expr.relocate (e k) (e' k))
    (hb : Agree f g escape Stmt.relocateAll b b') {first first' : Position}
    (hfirst : f first = g first') {make : Expr → Block → Span → Stmt}
    (hmake : ∀ k c body s, (make c body s).relocate k =
      make (c.relocate k) (Stmt.relocateAll k body) (s.relocate k)) :
    Agree f g escape Stmt.relocate (guarded e b first make) (guarded e' b' first' make) := by
  refine (he loosest).bind fun c c' hc => hb.bind fun body body' hbody => ?_
  refine (agree_spanFrom hfirst).bind fun s s' hs => agree_pure ?_
  simp only [hmake, hc, hbody, hs]

theorem agree_stmtOf (he : ∀ k, Agree f g escape Expr.relocate (e k) (e' k))
    (hb : Agree f g escape Stmt.relocateAll b b') (n : Nat) :
    Agree f g escape Stmt.relocate (stmtOf e b n) (stmtOf e' b' n) := by
  refine agree_peek.bind fun t t' ht => ?_
  have hspan := span_of_token ht
  have hfirst := first_of_span hspan
  dsimp only
  rw [kind_of_token ht]
  cases t'.kind with
  | letWord =>
      refine agree_next.bind fun _ _ _ => agree_ident.bind fun x x' hx => ?_
      refine (agree_expect _).bind fun _ _ _ => (he loosest).bind fun v v' hv => ?_
      refine (agree_spanFrom hfirst).bind fun s s' hs => agree_pure ?_
      simp only [Stmt.relocate, hx, hv, hs]
  | fnWord => exact agree_fnStmt he hb n
  | ifWord =>
      exact agree_next.bind fun _ _ _ => agree_guarded he hb hfirst fun _ _ _ _ => rfl
  | whileWord =>
      exact agree_next.bind fun _ _ _ => agree_guarded he hb hfirst fun _ _ _ _ => rfl
  | returnWord => exact agree_next.bind fun _ _ _ => agree_returnRest he hfirst
  | breakWord =>
      exact agree_next.bind fun _ _ _ => agree_pure (congrArg Stmt.breakOut hspan)
  | _ =>
      refine (he loosest).bind fun v v' hv => ?_
      refine (agree_spanFrom hfirst).bind fun s s' hs => agree_pure ?_
      simp only [Stmt.relocate, hv, hs]

/-! ## The whole parser -/

/-- Expressions and blocks contain each other, so both are carried by one induction. -/
theorem agree_knot : (n : Nat) →
    (∀ k, Agree f g escape Expr.relocate (expr n k) (expr n k)) ∧
      Agree f g escape Stmt.relocateAll (block n) (block n)
  | 0 => ⟨fun _ => agree_exhausted, agree_exhausted⟩
  | n + 1 => by
      obtain ⟨he, hb⟩ := agree_knot n
      exact ⟨agree_exprOf he hb n, agree_blockOf (agree_stmtOf he hb n) n⟩

theorem agree_program (n : Nat) :
    Agree f g escape Program.relocate (program n) (program n) :=
  agree_stmtsToEnd (agree_stmtOf (agree_knot n).1 (agree_knot n).2 n) n

end

end Parser

end HamScript
