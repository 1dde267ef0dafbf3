/-
# The grammar

Which token sequences are programs, said by rules and without a parser.  Expressions come in tiers:

* tier 0, assignment: `T = E0`, where `T` is a variable or a pointer to one;
* tiers 1, 2 and 3, the operators `==` `!=`, then `+` `-`, then `*` `/`, grouping to the left;
* tier 4, negation;
* tier 5, calls and method calls;
* tier 6, literals, names, parentheses and functions.

Line breaks matter in three places.  An operator, `=`, `.` or the parenthesis of a call stands on
the line where the token before it ends.  A statement that ends with an expression is not
followed, on the line where it ends, by a token that could go on with the expression.  And
`return` has a value exactly if a token that is not `}` follows on its line.  So the rule for a
statement looks at the token after it, which for the last one is the end of the source.
-/
import HamScript.Decimal.Reading
import HamScript.Syntax.Basic

namespace HamScript.Grammar

open Source (Position Span)

/-! ## Places -/

/-- Where the last of the tokens ends; `p` if there is none. -/
def endFrom (p : Position) (ts : List Token) : Position :=
  ts.foldl (fun _ t => t.span.last) p

/-- Where the last of the tokens ends. -/
def endOf (ts : List Token) : Position :=
  endFrom default ts

/-- Where the first of the tokens begins. -/
def startOf (ts : List Token) : Position :=
  (ts.headD default).span.first

/-- The token begins on the line where the tokens end. -/
def Adjoins (ts : List Token) (t : Token) : Prop :=
  t.span.first.line = (endOf ts).line

/-! ## Words of the grammar -/

/-- The text of an integer: ASCII digits. -/
def IsInt (text : String) (n : Nat) : Prop :=
  text.toList ≠ [] ∧ (∀ c ∈ text.toList, c.isDigit = true) ∧ n = Decimal.valueOf text.toList

/-- The name that the token is. -/
def IsName (t : Token) (x : Ident) : Prop :=
  t.kind = .ident ∧ x = ⟨t.text, t.span⟩

/-- The tree can be assigned to: it is a variable, or a pointer to one. -/
def Designates (e : Expr) (x : Ident) : Prop :=
  e = .var x ∨ ∃ span, e = .ref x span

/-- The tier of an operator. -/
def tierOf : BinaryOp → Nat
  | .equal | .notEqual => 1
  | .add | .subtract => 2
  | .multiply | .divide => 3

/-- The kinds of tokens that can go on with an expression. -/
def links : List Kind :=
  [.assign, .equal, .notEqual, .plus, .minus, .star, .slash, .period, .leftParen]

/-- An expression of the tokens `ts` ends before the token `next`. -/
def Ends (ts : List Token) (next : Token) : Prop :=
  next.kind ∈ links → ¬ Adjoins ts next

/-- A value is due after the token `t`, which is `return`, before `next`. -/
def WantsValue (t next : Token) : Prop :=
  next.span.first.line = t.span.last.line ∧ next.kind ≠ .rightBrace ∧ next.kind ≠ .eof

/-- Items between commas and a closing parenthesis; a comma may follow the last item. -/
inductive CommaList {α : Type} (Item : α → List Token → Prop) : List α → List Token → Prop
  | none {c : Token} : c.kind = .rightParen → CommaList Item [] [c]
  | one {a : α} {ts : List Token} {c : Token} :
      Item a ts → c.kind = .rightParen → CommaList Item [a] (ts ++ [c])
  | more {a : α} {as : List α} {ts us : List Token} {c : Token} :
      Item a ts → c.kind = .comma → CommaList Item as us → CommaList Item (a :: as) (ts ++ c :: us)

/-- The parameters of a function. -/
def Params (xs : List Ident) (ts : List Token) : Prop :=
  ∃ o us, ts = o :: us ∧ o.kind = .leftParen ∧
    CommaList (fun x us => ∃ t, us = [t] ∧ IsName t x) xs us

/-! ## The rules -/

/-- What tokens can be. -/
inductive Phrase where
  | expr (tier : Nat) (e : Expr)
  /-- The arguments of a call, after the opening parenthesis. -/
  | args (es : List Expr)
  | block (b : Block)
  /-- A statement before the token `next`. -/
  | stmt (s : Stmt) (next : Token)
  /-- Statements before the token `next`. -/
  | stmts (b : Block) (next : Token)

/-- The tokens make up the phrase. -/
inductive Derives : Phrase → List Token → Prop
  | int {t : Token} {n : Nat} :
      t.kind = .int → IsInt t.text n → Derives (.expr 6 (.int n t.span)) [t]
  | float {t : Token} {x : Float} :
      t.kind = .float → Decimal.literal? t.text.toList = some x →
      Derives (.expr 6 (.float x t.span)) [t]
  | string {t : Token} : t.kind = .string → Derives (.expr 6 (.string t.text t.span)) [t]
  | truth {t : Token} : t.kind = .trueWord → Derives (.expr 6 (.bool true t.span)) [t]
  | falsity {t : Token} : t.kind = .falseWord → Derives (.expr 6 (.bool false t.span)) [t]
  | var {t : Token} {x : Ident} : IsName t x → Derives (.expr 6 (.var x)) [t]
  | ref {a t : Token} {x : Ident} :
      a.kind = .ampersand → IsName t x →
      Derives (.expr 6 (.ref x ⟨a.span.first, t.span.last⟩)) [a, t]
  | paren {o c : Token} {e : Expr} {ts : List Token} :
      o.kind = .leftParen → Derives (.expr 0 e) ts → c.kind = .rightParen →
      Derives (.expr 6 e) (o :: (ts ++ [c]))
  | fn {f : Token} {xs : List Ident} {b : Block} {us vs : List Token} :
      f.kind = .fnWord → Params xs us → Derives (.block b) vs →
      Derives (.expr 6 (.fn xs b ⟨f.span.first, endOf vs⟩)) (f :: (us ++ vs))
  | call {l : Expr} {es : List Expr} {ls us : List Token} {o : Token} :
      Derives (.expr 5 l) ls → o.kind = .leftParen → Adjoins ls o → Derives (.args es) us →
      Derives (.expr 5 (.call l es ⟨l.span.first, endOf us⟩)) (ls ++ o :: us)
  | method {l : Expr} {x : Ident} {es : List Expr} {ls us : List Token} {d t o : Token} :
      Derives (.expr 5 l) ls → d.kind = .period → Adjoins ls d → IsName t x →
      o.kind = .leftParen → Derives (.args es) us →
      Derives (.expr 5 (.method l x es ⟨l.span.first, endOf us⟩)) (ls ++ d :: t :: o :: us)
  | negate {m : Token} {e : Expr} {ts : List Token} :
      m.kind = .minus → Derives (.expr 4 e) ts →
      Derives (.expr 4 (.negate e ⟨m.span.first, endOf ts⟩)) (m :: ts)
  | binary {op : BinaryOp} {l r : Expr} {ls rs : List Token} {o : Token} :
      Derives (.expr (tierOf op) l) ls → o.kind = op.kind → Adjoins ls o →
      Derives (.expr (tierOf op + 1) r) rs →
      Derives (.expr (tierOf op) (.binary op l r ⟨l.span.first, endOf rs⟩)) (ls ++ o :: rs)
  | assign {l v : Expr} {x : Ident} {ls rs : List Token} {o : Token} :
      Derives (.expr 1 l) ls → Designates l x → o.kind = .assign → Adjoins ls o →
      Derives (.expr 0 v) rs →
      Derives (.expr 0 (.assign x v ⟨l.span.first, endOf rs⟩)) (ls ++ o :: rs)
  /-- A tier holds all that the next one holds. -/
  | up {tier : Nat} {e : Expr} {ts : List Token} :
      Derives (.expr (tier + 1) e) ts → Derives (.expr tier e) ts
  | noArgs {c : Token} : c.kind = .rightParen → Derives (.args []) [c]
  | lastArg {e : Expr} {ts : List Token} {c : Token} :
      Derives (.expr 0 e) ts → c.kind = .rightParen → Derives (.args [e]) (ts ++ [c])
  | moreArgs {e : Expr} {es : List Expr} {ts us : List Token} {c : Token} :
      Derives (.expr 0 e) ts → c.kind = .comma → Derives (.args es) us →
      Derives (.args (e :: es)) (ts ++ c :: us)
  | block {o c : Token} {b : Block} {ts : List Token} :
      o.kind = .leftBrace → Derives (.stmts b c) ts → c.kind = .rightBrace →
      Derives (.block b) (o :: (ts ++ [c]))
  | noStmts (next : Token) : Derives (.stmts [] next) []
  | moreStmts {s : Stmt} {b : Block} {ts us : List Token} {next : Token} :
      Derives (.stmt s (us.headD next)) ts → Derives (.stmts b next) us →
      Derives (.stmts (s :: b) next) (ts ++ us)
  | letIn {k t o next : Token} {x : Ident} {e : Expr} {ts : List Token} :
      k.kind = .letWord → IsName t x → o.kind = .assign → Derives (.expr 0 e) ts → Ends ts next →
      Derives (.stmt (.letIn x e ⟨k.span.first, endOf ts⟩) next) (k :: t :: o :: ts)
  | fnDecl {k t : Token} {x : Ident} {xs : List Ident} {b : Block} {us vs : List Token}
      (next : Token) :
      k.kind = .fnWord → IsName t x → Params xs us → Derives (.block b) vs →
      Derives (.stmt (.fnDecl x xs b ⟨k.span.first, endOf vs⟩) next) (k :: t :: (us ++ vs))
  | ifThen {k : Token} {e : Expr} {b : Block} {ts us : List Token} (next : Token) :
      k.kind = .ifWord → Derives (.expr 0 e) ts → Derives (.block b) us →
      Derives (.stmt (.ifThen e b ⟨k.span.first, endOf us⟩) next) (k :: (ts ++ us))
  | whileDo {k : Token} {e : Expr} {b : Block} {ts us : List Token} (next : Token) :
      k.kind = .whileWord → Derives (.expr 0 e) ts → Derives (.block b) us →
      Derives (.stmt (.whileDo e b ⟨k.span.first, endOf us⟩) next) (k :: (ts ++ us))
  | returnUnit {k next : Token} :
      k.kind = .returnWord → ¬ WantsValue k next → Derives (.stmt (.returnUnit k.span) next) [k]
  | returnValue {k next : Token} {e : Expr} {ts : List Token} :
      k.kind = .returnWord → WantsValue k (ts.headD next) → Derives (.expr 0 e) ts →
      Ends ts next → Derives (.stmt (.returnValue e ⟨k.span.first, endOf ts⟩) next) (k :: ts)
  | breakOut {k : Token} (next : Token) :
      k.kind = .breakWord → Derives (.stmt (.breakOut k.span) next) [k]
  | expr {e : Expr} {ts : List Token} {next : Token} :
      Derives (.expr 0 e) ts → Ends ts next →
      Derives (.stmt (.expr e ⟨startOf ts, endOf ts⟩) next) ts

/-! ## Places, continued -/

@[simp] theorem endFrom_nil (p : Position) : endFrom p [] = p := rfl

@[simp] theorem endFrom_cons (p : Position) (t : Token) (ts : List Token) :
    endFrom p (t :: ts) = endFrom t.span.last ts := rfl

@[simp] theorem endFrom_append (p : Position) (ts us : List Token) :
    endFrom p (ts ++ us) = endFrom (endFrom p ts) us :=
  List.foldl_append

theorem endFrom_eq_endOf {ts : List Token} (h : ts ≠ []) (p : Position) :
    endFrom p ts = endOf ts := by
  obtain ⟨t, ts, rfl⟩ := List.exists_cons_of_ne_nil h
  rfl

@[simp] theorem endOf_singleton (t : Token) : endOf [t] = t.span.last := rfl

theorem endOf_append (ts : List Token) {us : List Token} (h : us ≠ []) :
    endOf (ts ++ us) = endOf us := by
  rw [endOf, endFrom_append, endFrom_eq_endOf h]

theorem endOf_cons (t : Token) {us : List Token} (h : us ≠ []) : endOf (t :: us) = endOf us :=
  endOf_append [t] h

/-! ## Phrases are not empty, and tiers are cumulative -/

theorem CommaList.ne_nil {α : Type} {Item : α → List Token → Prop} {as : List α} {ts : List Token}
    (h : CommaList Item as ts) : ts ≠ [] := by
  cases h <;> simp

/-- Only a list of statements can be empty. -/
theorem Derives.ne_nil {φ : Phrase} {ts : List Token} (h : Derives φ ts)
    (hφ : ∀ b next, φ ≠ .stmts b next) : ts ≠ [] := by
  induction h with
  | up h ih => exact ih fun _ _ => Phrase.noConfusion
  | expr h hends ih => exact ih fun _ _ => Phrase.noConfusion
  | noStmts | moreStmts => exact absurd rfl (hφ _ _)
  | _ => simp

theorem Derives.expr_ne_nil {tier : Nat} {e : Expr} {ts : List Token}
    (h : Derives (.expr tier e) ts) : ts ≠ [] :=
  h.ne_nil fun _ _ => Phrase.noConfusion

theorem Derives.block_ne_nil {b : Block} {ts : List Token} (h : Derives (.block b) ts) : ts ≠ [] :=
  h.ne_nil fun _ _ => Phrase.noConfusion

theorem Derives.args_ne_nil {es : List Expr} {ts : List Token} (h : Derives (.args es) ts) :
    ts ≠ [] :=
  h.ne_nil fun _ _ => Phrase.noConfusion

theorem Derives.of_le {tier tier' : Nat} {e : Expr} {ts : List Token}
    (h : Derives (.expr tier' e) ts) (hle : tier ≤ tier') : Derives (.expr tier e) ts := by
  induction hle with
  | refl => exact h
  | step _ ih => exact ih h.up

end HamScript.Grammar
