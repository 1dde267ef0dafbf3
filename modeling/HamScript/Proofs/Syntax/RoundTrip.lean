/-
# Reading back what has been written

An expression as text is a source, and parsing it gives the expression again, except for the places
where its parts stand.  Not every tree can be written so that it is read back: only operators are
put in parentheses, and a call binds tighter than a negation, which binds tighter than an operator,
which binds tighter than an assignment.  `Writable` says where nothing goes wrong.

| part                          | may not be                        | because it would be read as |
| :---------------------------- | :-------------------------------- | :-------------------------- |
| operand of a negation         | an assignment                     | `-x = e`, which is nothing  |
| operand of an operator        | an assignment                     | `x = (e + d)`               |
| what is called, or a receiver | an assignment                     | `x = e(d)`                  |
| what is called, or a receiver | a negation                        | `-(e(d))`                   |

Names have to be names, and a text must not have characters with an escape that strings do not know.
The parser is not looked at here: tokens are spelled (`Spells`), and they derive the tree by the
rules of the grammar (`Derives`).
-/
import HamScript.Proofs.Source.Encoding
import HamScript.Proofs.Syntax.Realises
import HamScript.Proofs.Token.Spelling
import HamScript.Syntax.Render

namespace HamScript

open Grammar (Adjoins Derives Designates IsName endOf tierOf)
open Lexeme (Clear IsIdentifier Spaced)
open Source (Glyph Position Span)

/-! ## Trees without places -/

/-- The tree, with all places forgotten. -/
def Expr.bare (e : Expr) : Expr :=
  e.relocate fun _ => default

/-- The trees, with all places forgotten. -/
def Expr.bareAll (es : List Expr) : List Expr :=
  Expr.relocateAll (fun _ => default) es

/-- The name, with its place forgotten. -/
def Ident.bare (x : Ident) : Ident :=
  x.relocate fun _ => default

theorem Ident.bare_eq {x y : Ident} (h : x.name = y.name) : x.bare = y.bare := by
  change Ident.mk x.name _ = Ident.mk y.name _
  rw [h]
  rfl

namespace Expr

variable {op : BinaryOp} {e l r : Expr} {x : Ident} {args : List Expr} {span : Span}

@[simp] theorem bare_var : (var x).bare = .var x.bare := rfl

@[simp] theorem bare_ref : (ref x span).bare = .ref x.bare ⟨default, default⟩ := rfl

@[simp] theorem bare_negate : (negate e span).bare = .negate e.bare ⟨default, default⟩ := rfl

@[simp] theorem bare_binary :
    (binary op l r span).bare = .binary op l.bare r.bare ⟨default, default⟩ := rfl

@[simp] theorem bare_assign : (assign x e span).bare = .assign x.bare e.bare ⟨default, default⟩ :=
  rfl

@[simp] theorem bare_call :
    (call e args span).bare = .call e.bare (bareAll args) ⟨default, default⟩ := rfl

@[simp] theorem bare_method :
    (method e x args span).bare = .method e.bare x.bare (bareAll args) ⟨default, default⟩ := rfl

@[simp] theorem bareAll_cons : bareAll (e :: args) = e.bare :: bareAll args := rfl

end Expr

/-! ## Trees that can be written -/

namespace Expr

def isAssignment : Expr → Bool
  | .assign _ _ _ => true
  | _ => false

def isNegation : Expr → Bool
  | .negate _ _ => true
  | _ => false

mutual

/-- The tree can be written so that it is read back. -/
def Writable : Expr → Prop
  | .int _ _ => True
  | .float _ _ => False
  | .string s _ => ∀ c ∈ s.toList, Text.isPrintable c = true ∨ c = '\n' ∨ c = '\t'
  | .bool _ _ => True
  | .var x => IsIdentifier x.name
  | .ref x _ => IsIdentifier x.name
  | .negate e _ => e.isAssignment = false ∧ e.Writable
  | .binary _ l r _ =>
    (l.isAssignment = false ∧ l.Writable) ∧ r.isAssignment = false ∧ r.Writable
  | .assign x e _ => IsIdentifier x.name ∧ e.Writable
  | .call e args _ =>
    (e.isAssignment = false ∧ e.isNegation = false ∧ e.Writable) ∧ WritableAll args
  | .method e x args _ =>
    (e.isAssignment = false ∧ e.isNegation = false ∧ e.Writable) ∧ IsIdentifier x.name ∧
      WritableAll args
  | .fn _ _ _ => False

/-- The trees can all be written. -/
def WritableAll : List Expr → Prop
  | [] => True
  | e :: es => e.Writable ∧ WritableAll es

end

mutual

def decideWritable : (e : Expr) → Decidable e.Writable
  | .int _ _ => isTrue trivial
  | .float _ _ => isFalse id
  | .string s _ =>
    -- Named, because a search may find the instance that tries all characters.
    List.decidableBAll (fun c => Text.isPrintable c = true ∨ c = '\n' ∨ c = '\t') s.toList
  | .bool _ _ => isTrue trivial
  | .var x => inferInstanceAs (Decidable (IsIdentifier x.name))
  | .ref x _ => inferInstanceAs (Decidable (IsIdentifier x.name))
  | .negate e _ =>
    have := e.decideWritable
    inferInstanceAs (Decidable (e.isAssignment = false ∧ e.Writable))
  | .binary _ l r _ =>
    have := l.decideWritable
    have := r.decideWritable
    inferInstanceAs (Decidable
      ((l.isAssignment = false ∧ l.Writable) ∧ r.isAssignment = false ∧ r.Writable))
  | .assign x e _ =>
    have := e.decideWritable
    inferInstanceAs (Decidable (IsIdentifier x.name ∧ e.Writable))
  | .call e args _ =>
    have := e.decideWritable
    have := decideWritableAll args
    inferInstanceAs (Decidable
      ((e.isAssignment = false ∧ e.isNegation = false ∧ e.Writable) ∧ WritableAll args))
  | .method e x args _ =>
    have := e.decideWritable
    have := decideWritableAll args
    inferInstanceAs (Decidable ((e.isAssignment = false ∧ e.isNegation = false ∧ e.Writable) ∧
      IsIdentifier x.name ∧ WritableAll args))
  | .fn _ _ _ => isFalse id

def decideWritableAll : (es : List Expr) → Decidable (WritableAll es)
  | [] => isTrue trivial
  | e :: es =>
    have := e.decideWritable
    have := decideWritableAll es
    inferInstanceAs (Decidable (e.Writable ∧ WritableAll es))

end

instance (e : Expr) : Decidable e.Writable :=
  e.decideWritable

/-- The tier of the grammar that the written form of the tree belongs to. -/
def tier : Expr → Nat
  | .assign _ _ _ => 0
  | .negate _ _ => 4
  | .call _ _ _ | .method _ _ _ _ => 5
  | _ => 6

theorem four_le_tier {e : Expr} (h : e.isAssignment = false) : 4 ≤ e.tier := by
  cases e with
  | assign => cases h
  | _ => exact Nat.le_of_ble_eq_true rfl

theorem five_le_tier {e : Expr} (h : e.isAssignment = false) (h' : e.isNegation = false) :
    5 ≤ e.tier := by
  cases e with
  | assign => cases h
  | negate => cases h'
  | _ => exact Nat.le_of_ble_eq_true rfl

end Expr

/-! ## Tokens on one line -/

theorem Token.OnLine.adjoins {line : Int} {ls us : List Token} {o : Token}
    (h : OnLine line (ls ++ o :: us)) (hne : ls ≠ []) : Adjoins ls o := by
  have hend : endOf ls = (ls.getLast hne).span.last := by
    conv => lhs; rw [← List.dropLast_concat_getLast hne]
    rw [Grammar.endOf_append _ (List.cons_ne_nil _ _), Grammar.endOf_singleton]
  have hlast := (h _ (List.mem_append_left _ (List.getLast_mem hne))).2
  have hfirst := (h o (List.mem_append_right _ List.mem_cons_self)).1
  rw [Adjoins, hend, hfirst, hlast]

theorem Token.OnLine.tail {line : Int} {t : Token} {ts : List Token} (h : OnLine line (t :: ts)) :
    OnLine line ts :=
  fun u hu => h u (List.mem_cons_of_mem t hu)

namespace Expr

/-! ## What is read from the written form -/

/-- The tokens are an expression of the tier that is `e`, but for its places. -/
def Reads (tier : Nat) (e : Expr) (ts : List Token) : Prop :=
  ∃ e', e'.bare = e.bare ∧ Derives (.expr tier e') ts

/-- The tokens are arguments and a closing parenthesis, and the arguments are `es`. -/
def ReadsAll (es : List Expr) (ts : List Token) : Prop :=
  ∃ es', bareAll es' = bareAll es ∧ Derives (.args es') ts

variable {e l r : Expr} {x : Ident} {args : List Expr} {span : Span} {ts us vs : List Token}

theorem Reads.of_le {tier tier' : Nat} (h : Reads tier' e ts) (hle : tier ≤ tier') :
    Reads tier e ts := by
  obtain ⟨e', he, hderives⟩ := h
  exact ⟨e', he, hderives.of_le hle⟩

theorem reads_negate {m : Token} (hm : m.kind = .minus) (h : Reads 4 e ts) :
    Reads 4 (.negate e span) (m :: ts) := by
  obtain ⟨e', he, hderives⟩ := h
  refine ⟨_, ?_, .negate hm hderives⟩
  rw [bare_negate, he, bare_negate]

theorem reads_binary {line : Int} {op : BinaryOp} {p o q : Token}
    (hline : Token.OnLine line (p :: (us ++ o :: (vs ++ [q])))) (hp : p.kind = .leftParen)
    (hl : Reads 4 l us) (ho : o.kind = op.kind) (hr : Reads 4 r vs) (hq : q.kind = .rightParen) :
    Reads 6 (.binary op l r span) (p :: (us ++ o :: (vs ++ [q]))) := by
  have hop : tierOf op ≤ 3 := by cases op <;> decide
  obtain ⟨l', hl', hus⟩ := hl
  obtain ⟨r', hr', hvs⟩ := hr
  have hbinary := Derives.binary (hus.of_le (Nat.le_succ_of_le hop)) ho
    (hline.tail.adjoins hus.expr_ne_nil) (hvs.of_le (Nat.succ_le_succ hop))
  have hparen := Derives.paren hp (hbinary.of_le (Nat.zero_le _)) hq
  rw [List.append_assoc, List.cons_append] at hparen
  refine ⟨_, ?_, hparen⟩
  rw [bare_binary, hl', hr', bare_binary]

theorem reads_assign {line : Int} {t o : Token} (hline : Token.OnLine line (t :: o :: ts))
    (ht : t.kind = .ident) (htext : t.text = x.name) (ho : o.kind = .assign) (h : Reads 0 e ts) :
    Reads 0 (.assign x e span) (t :: o :: ts) := by
  obtain ⟨e', he, hderives⟩ := h
  have hvar : Derives (.expr 6 (.var ⟨t.text, t.span⟩)) [t] := .var ⟨ht, rfl⟩
  have hline' : Token.OnLine line ([t] ++ o :: ts) := hline
  have hadjoins : Adjoins [t] o := hline'.adjoins (List.cons_ne_nil _ _)
  refine ⟨_, ?_, .assign (hvar.of_le (by decide)) (.inl rfl) ho hadjoins hderives⟩
  rw [bare_assign, he, Ident.bare_eq htext, bare_assign]

theorem reads_call {line : Int} {o : Token} (hline : Token.OnLine line (us ++ o :: vs))
    (h : Reads 5 e us) (ho : o.kind = .leftParen) (hargs : ReadsAll args vs) :
    Reads 5 (.call e args span) (us ++ o :: vs) := by
  obtain ⟨e', he, hus⟩ := h
  obtain ⟨args', hargs', hvs⟩ := hargs
  refine ⟨_, ?_, .call hus ho (hline.adjoins hus.expr_ne_nil) hvs⟩
  rw [bare_call, he, hargs', bare_call]

theorem reads_method {line : Int} {d t o : Token}
    (hline : Token.OnLine line (us ++ d :: t :: o :: vs)) (h : Reads 5 e us)
    (hd : d.kind = .period) (ht : t.kind = .ident) (htext : t.text = x.name)
    (ho : o.kind = .leftParen) (hargs : ReadsAll args vs) :
    Reads 5 (.method e x args span) (us ++ d :: t :: o :: vs) := by
  obtain ⟨e', he, hus⟩ := h
  obtain ⟨args', hargs', hvs⟩ := hargs
  have hname : IsName t ⟨t.text, t.span⟩ := ⟨ht, rfl⟩
  refine ⟨_, ?_, .method hus hd (hline.adjoins hus.expr_ne_nil) hname ho hvs⟩
  rw [bare_method, he, hargs', Ident.bare_eq htext, bare_method]

/-! ## The written form, part by part -/

section
variable {text text' : String}

/-- Anything may follow. -/
def Free (_ : List Glyph) : Prop :=
  True

theorem spells_leftParen :
    Spells Free (Glyph.ofText "(") fun ts => ∃ t, ts = [t] ∧ t.kind = .leftParen :=
  .mark "(" .leftParen ⟨'(', rfl, by decide⟩

theorem spells_rightParen {F : List Glyph → Prop} :
    Spells F (Glyph.ofText ")") fun ts => ∃ t, ts = [t] ∧ t.kind = .rightParen :=
  .mark ")" .rightParen ⟨')', rfl, by decide⟩

theorem spells_blank : Spells Free (Glyph.ofText " ") (· = []) :=
  .blank

theorem spaced_blank (gs : List Glyph) : Spaced (Glyph.ofText " " ++ gs) :=
  ⟨gs, rfl⟩

theorem clear_leftParen (gs : List Glyph) : Clear (Glyph.ofText "(" ++ gs) :=
  Lexeme.clear_cons (by decide +kernel) (by decide)

theorem clear_rightParen (gs : List Glyph) : Clear (Glyph.ofText ")" ++ gs) :=
  Lexeme.clear_cons (by decide +kernel) (by decide)

theorem clear_comma (gs : List Glyph) : Clear (Glyph.ofText "," ++ gs) :=
  Lexeme.clear_cons (by decide +kernel) (by decide)

/-- A point and a name. -/
theorem clear_period {name : String} (h : IsIdentifier name) (gs : List Glyph) :
    Clear (Glyph.ofText "." ++ (Glyph.ofText name ++ gs)) := by
  obtain ⟨⟨c, cs, hname, hc, -⟩, -⟩ := h
  rw [Glyph.ofText, Glyph.ofText, hname]
  exact Lexeme.clear_point rfl hc

theorem spells_true :
    Spells Clear (Glyph.ofText "true") fun ts => ∃ t, ts = [t] ∧ t.kind = .trueWord := by
  have hparts : ∀ c ∈ ['r', 'u', 'e'], Lexeme.isNamePart c = true :=
    List.all_eq_true.mp (by decide +kernel)
  have hword : Lexeme.IsWordKind "true" .trueWord := .inl (by decide)
  refine (Spells.word rfl (by decide +kernel) hparts hword).mono ?_
  rintro line ts - ⟨t, rfl, hkind, -⟩
  exact ⟨t, rfl, hkind⟩

theorem spells_false :
    Spells Clear (Glyph.ofText "false") fun ts => ∃ t, ts = [t] ∧ t.kind = .falseWord := by
  have hparts : ∀ c ∈ ['a', 'l', 's', 'e'], Lexeme.isNamePart c = true :=
    List.all_eq_true.mp (by decide +kernel)
  have hword : Lexeme.IsWordKind "false" .falseWord := .inl (by decide)
  refine (Spells.word rfl (by decide +kernel) hparts hword).mono ?_
  rintro line ts - ⟨t, rfl, hkind, -⟩
  exact ⟨t, rfl, hkind⟩

theorem spells_ref (hx : IsIdentifier x.name) :
    Spells Clear (Glyph.ofText ("&" ++ x.name)) (Reads 6 (.ref x span)) := by
  have hampersand : Spells Free (Glyph.ofText "&") fun ts => ∃ t, ts = [t] ∧ t.kind = .ampersand :=
    .mark "&" .ampersand ⟨'&', rfl, by decide⟩
  rw [Glyph.ofText_append]
  refine (hampersand.append (.identifier hx) fun _ _ => trivial).mono ?_
  rintro line ts - ⟨_, _, rfl, ⟨a, rfl, ha⟩, ⟨t, rfl, ht, htext⟩⟩
  have hname : IsName t ⟨t.text, t.span⟩ := ⟨ht, rfl⟩
  refine ⟨_, ?_, .ref ha hname⟩
  rw [bare_ref, Ident.bare_eq htext, bare_ref]

theorem spells_minus : Spells Free (Glyph.ofText "-") fun ts => ∃ t, ts = [t] ∧ t.kind = .minus :=
  .mark "-" .minus ⟨'-', rfl, by decide⟩

theorem spells_negate (h : Spells Clear (Glyph.ofText text) (Reads 4 e)) :
    Spells Clear (Glyph.ofText ("-" ++ text)) (Reads 4 (.negate e span)) := by
  rw [Glyph.ofText_append]
  refine (spells_minus.append h fun _ _ => trivial).mono ?_
  rintro line ts - ⟨_, us, rfl, ⟨m, rfl, hm⟩, hus⟩
  exact reads_negate hm hus

theorem spells_binary {op : BinaryOp} (hl : Spells Clear (Glyph.ofText text) (Reads 4 l))
    (hr : Spells Clear (Glyph.ofText text') (Reads 4 r)) :
    Spells Clear (Glyph.ofText ("(" ++ text ++ " " ++ op.symbol ++ " " ++ text' ++ ")"))
      (Reads 6 (.binary op l r span)) := by
  have hleft := (spells_leftParen.append hl fun _ _ => trivial).append spells_blank
    fun rest _ => (spaced_blank rest).clear
  have hop := (hleft.append (.operator op) fun _ _ => trivial).append spells_blank
    fun rest _ => spaced_blank rest
  have hright := (hop.append hr fun _ _ => trivial).append (spells_rightParen (F := Clear))
    fun rest _ => clear_rightParen rest
  simp only [Glyph.ofText_append]
  refine hright.mono ?_
  rintro line ts hline ⟨_, _, rfl, ⟨_, vs, rfl, ⟨_, _, rfl, ⟨_, _, rfl, ⟨_, _, rfl,
    ⟨_, us, rfl, ⟨p, rfl, hp⟩, hus⟩, rfl⟩, ⟨o, rfl, ho⟩⟩, rfl⟩, hvs⟩, ⟨q, rfl, hq⟩⟩
  simp only [List.append_nil, List.append_assoc, List.cons_append, List.nil_append] at hline ⊢
  exact reads_binary hline hp hus ho hvs hq

theorem spells_assign (hx : IsIdentifier x.name)
    (h : Spells Clear (Glyph.ofText text) (Reads 0 e)) :
    Spells Clear (Glyph.ofText (x.name ++ " = " ++ text)) (Reads 0 (.assign x e span)) := by
  have hsign : Glyph.ofText " = " = Glyph.ofText " " ++ Glyph.ofText "=" ++ Glyph.ofText " " := rfl
  have hspaced := (spells_blank.append .assignSign fun _ _ => trivial).append spells_blank
    fun rest _ => spaced_blank rest
  rw [← hsign] at hspaced
  have htarget := (Spells.identifier hx).append hspaced fun rest _ => (spaced_blank _).clear
  rw [Glyph.ofText_append, Glyph.ofText_append]
  refine (htarget.append h fun _ _ => trivial).mono ?_
  rintro line ts hline ⟨_, us, rfl, ⟨_, _, rfl, ⟨t, rfl, ht, htext⟩, ⟨_, _, rfl, ⟨_, _, rfl, rfl,
    ⟨o, rfl, ho⟩⟩, rfl⟩⟩, hus⟩
  exact reads_assign hline ht htext ho hus

theorem spells_call (h : Spells Clear (Glyph.ofText text) (Reads 5 e))
    (hargs : Spells Clear (Glyph.ofText text') (ReadsAll args)) :
    Spells Clear (Glyph.ofText (text ++ "(" ++ text')) (Reads 5 (.call e args span)) := by
  have hcallee := h.append spells_leftParen fun rest _ => clear_leftParen rest
  rw [Glyph.ofText_append, Glyph.ofText_append]
  refine (hcallee.append hargs fun _ _ => trivial).mono ?_
  rintro line ts hline ⟨_, vs, rfl, ⟨us, _, rfl, hus, ⟨o, rfl, ho⟩⟩, hvs⟩
  rw [List.append_assoc] at hline ⊢
  exact reads_call hline hus ho hvs

theorem spells_method (h : Spells Clear (Glyph.ofText text) (Reads 5 e))
    (hx : IsIdentifier x.name) (hargs : Spells Clear (Glyph.ofText text') (ReadsAll args)) :
    Spells Clear (Glyph.ofText (text ++ "." ++ x.name ++ "(" ++ text'))
      (Reads 5 (.method e x args span)) := by
  have hperiod : Spells Free (Glyph.ofText ".") fun ts => ∃ t, ts = [t] ∧ t.kind = .period :=
    .mark "." .period ⟨'.', rfl, by decide⟩
  have hname := (hperiod.append (.identifier hx) fun _ _ => trivial).append spells_leftParen
    fun rest _ => clear_leftParen rest
  have hreceiver := h.append hname fun rest _ => by
    rw [List.append_assoc, List.append_assoc]
    exact clear_period hx _
  have hwhole := hreceiver.append hargs fun _ _ => trivial
  simp only [Glyph.ofText_append, List.append_assoc] at hwhole ⊢
  refine hwhole.mono ?_
  rintro line ts hline ⟨_, vs, rfl, ⟨us, _, rfl, hus, ⟨_, _, rfl, ⟨_, _, rfl, ⟨d, rfl, hd⟩,
    ⟨t, rfl, ht, htext⟩⟩, ⟨o, rfl, ho⟩⟩⟩, hvs⟩
  rw [List.append_assoc] at hline ⊢
  exact reads_method hline hus hd ht htext ho hvs

theorem spells_noArgs : Spells Clear (Glyph.ofText ")") (ReadsAll []) := by
  refine spells_rightParen.mono ?_
  rintro line ts - ⟨c, rfl, hc⟩
  exact ⟨[], rfl, .noArgs hc⟩

theorem spells_lastArg (h : Spells Clear (Glyph.ofText text) (Reads 0 e)) :
    Spells Clear (Glyph.ofText (text ++ ")")) (ReadsAll [e]) := by
  rw [Glyph.ofText_append]
  refine (h.append spells_rightParen fun rest _ => clear_rightParen rest).mono ?_
  rintro line ts - ⟨us, _, rfl, ⟨e', he, hus⟩, ⟨c, rfl, hc⟩⟩
  refine ⟨[e'], ?_, .lastArg hus hc⟩
  rw [bareAll_cons, he]
  rfl

theorem spells_moreArgs (h : Spells Clear (Glyph.ofText text) (Reads 0 e))
    (hargs : Spells Clear (Glyph.ofText text') (ReadsAll args)) :
    Spells Clear (Glyph.ofText (text ++ ", " ++ text')) (ReadsAll (e :: args)) := by
  have hcomma : Spells Free (Glyph.ofText ",") fun ts => ∃ t, ts = [t] ∧ t.kind = .comma :=
    .mark "," .comma ⟨',', rfl, by decide⟩
  have hseparator : Glyph.ofText ", " = Glyph.ofText "," ++ Glyph.ofText " " := rfl
  have hspaced := hcomma.append spells_blank fun _ _ => trivial
  have hfirst := h.append hspaced fun rest _ => by
    rw [List.append_assoc]
    exact clear_comma _
  rw [Glyph.ofText_append, Glyph.ofText_append, hseparator]
  refine (hfirst.append hargs fun _ _ => trivial).mono ?_
  rintro line ts - ⟨_, vs, rfl, ⟨us, _, rfl, ⟨e', he, hus⟩, ⟨_, _, rfl, ⟨c, rfl, hc⟩, rfl⟩⟩,
    ⟨args', hargs', hvs⟩⟩
  refine ⟨e' :: args', ?_, ?_⟩
  · rw [bareAll_cons, he, hargs', bareAll_cons]
  · rw [List.append_assoc]
    exact .moreArgs hus hc hvs

end

/-! ## The written form of a tree -/

mutual

/-- The written form of a tree is spelled with tokens that are the tree. -/
theorem spells_render : (e : Expr) → e.Writable →
    Spells Clear (Glyph.ofText e.render) (Reads e.tier e)
  | .int n span, _ => by
      rw [render]
      refine (Spells.numeral n).mono ?_
      rintro line ts - ⟨t, rfl, hkind, hint⟩
      exact ⟨.int n t.span, rfl, .int hkind hint⟩
  | .string s span, h => by
      rw [render]
      refine (Spells.quoted h).mono ?_
      rintro line ts - ⟨t, rfl, hkind, rfl⟩
      exact ⟨.string t.text t.span, rfl, .string hkind⟩
  | .bool true span, _ => by
      rw [render, if_pos rfl]
      refine spells_true.mono ?_
      rintro line ts - ⟨t, rfl, hkind⟩
      exact ⟨.bool true t.span, rfl, .truth hkind⟩
  | .bool false span, _ => by
      rw [render, if_neg Bool.false_ne_true]
      refine spells_false.mono ?_
      rintro line ts - ⟨t, rfl, hkind⟩
      exact ⟨.bool false t.span, rfl, .falsity hkind⟩
  | .var x, h => by
      rw [render]
      refine (Spells.identifier h).mono ?_
      rintro line ts - ⟨t, rfl, hkind, htext⟩
      refine ⟨.var ⟨t.text, t.span⟩, ?_, .var ⟨hkind, rfl⟩⟩
      rw [bare_var, Ident.bare_eq htext, bare_var]
  | .ref x span, h => by
      rw [render]
      exact spells_ref h
  | .negate e span, h => by
      rw [render]
      obtain ⟨hassign, he⟩ := h
      exact spells_negate ((spells_render e he).mono fun _ _ _ h => h.of_le (four_le_tier hassign))
  | .binary op l r span, h => by
      rw [render]
      obtain ⟨⟨hassign, hl⟩, hassign', hr⟩ := h
      exact spells_binary
        ((spells_render l hl).mono fun _ _ _ h => h.of_le (four_le_tier hassign))
        ((spells_render r hr).mono fun _ _ _ h => h.of_le (four_le_tier hassign'))
  | .assign x e span, h => by
      rw [render]
      obtain ⟨hx, he⟩ := h
      exact spells_assign hx ((spells_render e he).mono fun _ _ _ h => h.of_le (Nat.zero_le _))
  | .call e args span, h => by
      rw [render, String.append_assoc]
      obtain ⟨⟨hassign, hnegation, he⟩, hargs⟩ := h
      exact spells_call
        ((spells_render e he).mono fun _ _ _ h => h.of_le (five_le_tier hassign hnegation))
        (spells_args args hargs)
  | .method e x args span, h => by
      rw [render, String.append_assoc]
      obtain ⟨⟨hassign, hnegation, he⟩, hx, hargs⟩ := h
      exact spells_method
        ((spells_render e he).mono fun _ _ _ h => h.of_le (five_le_tier hassign hnegation)) hx
        (spells_args args hargs)

theorem spells_args : (args : List Expr) → WritableAll args →
    Spells Clear (Glyph.ofText (String.intercalate ", " (renderAll args) ++ ")")) (ReadsAll args)
  | [], _ => spells_noArgs
  | [e], h => by
      rw [renderAll, renderAll, String.intercalate_singleton]
      exact spells_lastArg ((spells_render e h.1).mono fun _ _ _ h => h.of_le (Nat.zero_le _))
  | e :: d :: args, h => by
      rw [renderAll, renderAll, String.intercalate_cons_cons, String.append_assoc]
      exact spells_moreArgs ((spells_render e h.1).mono fun _ _ _ h => h.of_le (Nat.zero_le _))
        (spells_args (d :: args) h.2)

end

end Expr

/-! ## Sources -/

/-- A source whose tokens derive a program is parsed as that program. -/
theorem Program.ofGlyphs_of_derives {gs : List Glyph} {ts : List Token} {p : Position} {P : Program}
    (hlexes : Lexes .finished .start gs ts (.ok p)) (h : Derives (.stmts P (.endAt p)) ts) :
    Program.ofGlyphs gs .finished = .ok P := by
  have hscan : Scan.ofGlyphs gs .finished = ⟨ts, .ok p⟩ := hlexes.readFrom_eq
  rw [Program.ofGlyphs, Program.ofScan_eq_ok_iff, hscan]
  exact Parser.program_of_derives h (Nat.lt_succ_self _)

/-- An expression by itself is a program. -/
theorem Grammar.derives_single {e : Expr} {tier : Nat} {ts : List Token}
    (h : Derives (.expr tier e) ts) (p : Position) :
    Derives (.stmts [.expr e ⟨Grammar.startOf ts, endOf ts⟩] (.endAt p)) ts := by
  have hends : Grammar.Ends ts (.endAt p) := fun hlink =>
    absurd (show Kind.eof ∈ Grammar.links from hlink) (by decide)
  have hstmt := Derives.expr (h.of_le (Nat.zero_le _)) hends
  have hstmts := Derives.moreStmts hstmt (.noStmts (.endAt p))
  rwa [List.append_nil] at hstmts

/-- **Reading back.**  The text of a tree that can be written, as UTF-8, is a source with one
statement, which is the tree again, but for its places. -/
theorem parse_render (e : Expr) (he : e.Writable) :
    ∃ e' span, Program.ofGlyphs (Glyph.ofBytes e.render.toUTF8.data.toList) .finished =
      .ok [.expr e' span] ∧ e'.bare = e.bare := by
  rw [Glyph.ofBytes_toUTF8]
  obtain ⟨ts, -, ⟨e', hbare, hderives⟩, hlexes⟩ :=
    (Expr.spells_render e he).lexes (p := .start) Lexeme.clear_nil (.done (.nil []))
  rw [List.append_nil, List.append_nil] at hlexes
  exact ⟨e', _, Program.ofGlyphs_of_derives hlexes (Grammar.derives_single hderives _), hbare⟩

/-- `f(-5, x = "a\n").sum((--y / &z))`, with places that do not matter. -/
def tangled : Expr :=
  let name (x : String) : Ident := ⟨x, default⟩
  .method
    (.call (.var (name "f"))
      [.negate (.int 5 default) default, .assign (name "x") (.string "a\n" default) default] default)
    (name "sum")
    [.binary .divide (.negate (.negate (.var (name "y")) default) default)
      (.ref (name "z") default) default]
    default

theorem parse_render_tangled :
    tangled.Writable ∧ tangled.render = "f(-5, x = \"a\\n\").sum((--y / &z))" ∧
    ∃ e' span, Program.ofGlyphs (Glyph.ofBytes tangled.render.toUTF8.data.toList) .finished =
      .ok [.expr e' span] ∧ e'.bare = tangled.bare := by
  have htangled : tangled.Writable := by decide +kernel
  exact ⟨htangled, by decide +kernel, parse_render tangled htangled⟩

end HamScript
