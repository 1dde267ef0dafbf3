/-
# What the text of an expression shows

Only operators are written in parentheses.  So the text of a call of a negation, `-a.b()`, is the
text of the negation of a call too, and likewise for assignments.  This is all that is lost: a
`Shape` is a tree in which a call or a method call goes to the innermost expression in front of it,
and two expressions have the same text exactly if they have the same shape.

| tree                               | text       | shape                             |
| :--------------------------------- | :--------- | :-------------------------------- |
| the negation of `a.b()`            | `-a.b()`   | the negation of `a` with `.b()`   |
| the method `b` of `-a`             | `-a.b()`   | the negation of `a` with `.b()`   |
| the assignment of `g(x)` to `f`    | `f = g(x)` | the assignment of `g` with `(x)`  |
| the call of `f = g` with `x`       | `f = g(x)` | the assignment of `g` with `(x)`  |

An expression in which nothing negated or assigned is called can be told from its shape, but for its
places.  Shapes are told apart by their texts from left to right.  What may stand behind a shape is
a parenthesis, a comma or an operator between blanks, and none of them can go on with the shape.
-/
import HamScript.Proofs.Syntax.Parts
import HamScript.Proofs.Syntax.RoundTrip

namespace HamScript

open Lexeme (IsIdentifier)

/-! ## Shapes -/

mutual

/-- What the text of an expression shows. -/
inductive Shape where
  | negate (operand : Shape)
  | assign (target : String) (value : Shape)
  /-- Calls and method calls, one after the other. -/
  | chain (head : Atom) (links : List Link)

/-- What a chain begins with. -/
inductive Atom where
  | int (value : Nat)
  | string (value : String)
  | bool (value : Bool)
  | var (name : String)
  | ref (target : String)
  | binary (op : BinaryOp) (left right : Shape)
  /-- A text that is not looked into. -/
  | verbatim (text : String)

/-- What a chain goes on with. -/
inductive Link where
  | call (args : List Shape)
  | method (name : String) (args : List Shape)

end

/-- The shape, with one more link at the end of its innermost chain. -/
def Shape.link (l : Link) : Shape → Shape
  | .negate s => .negate (s.link l)
  | .assign x s => .assign x (s.link l)
  | .chain a ls => .chain a (ls ++ [l])

mutual

/-- What the text of the expression shows.  Of a function or a float, it is the text. -/
def Expr.shape : Expr → Shape
  | .int n _ => .chain (.int n) []
  | .float x s => .chain (.verbatim (Expr.float x s).render) []
  | .string t _ => .chain (.string t) []
  | .bool b _ => .chain (.bool b) []
  | .var x => .chain (.var x.name) []
  | .ref x _ => .chain (.ref x.name) []
  | .negate e _ => .negate e.shape
  | .binary op l r _ => .chain (.binary op l.shape r.shape) []
  | .assign x e _ => .assign x.name e.shape
  | .call c es _ => c.shape.link (.call (Expr.shapes es))
  | .method r x es _ => r.shape.link (.method x.name (Expr.shapes es))
  | .fn xs b s => .chain (.verbatim (Expr.fn xs b s).render) []

def Expr.shapes : List Expr → List Shape
  | [] => []
  | e :: es => e.shape :: Expr.shapes es

end

/-! ## The text of a shape -/

mutual

def Shape.text : Shape → List Char
  | .negate s => '-' :: s.text
  | .assign x s => x.toList ++ ' ' :: '=' :: ' ' :: s.text
  | .chain a ls => a.text ++ Link.allText ls

def Atom.text : Atom → List Char
  | .int n => Nat.toDigits 10 n
  | .string t => (Text.quoted t).toList
  | .bool b => (if b then "true" else "false").toList
  | .var x => x.toList
  | .ref x => '&' :: x.toList
  | .binary op l r => '(' :: (l.text ++ ' ' :: (op.symbol.toList ++ ' ' :: (r.text ++ [')'])))
  | .verbatim t => t.toList

def Link.text : Link → List Char
  | .call ss => '(' :: Shape.argsText ss
  | .method x ss => '.' :: (x.toList ++ '(' :: Shape.argsText ss)

def Link.allText : List Link → List Char
  | [] => []
  | l :: ls => l.text ++ Link.allText ls

/-- Arguments, after the opening parenthesis. -/
def Shape.argsText : List Shape → List Char
  | [] => [')']
  | s :: ss => s.text ++ Shape.moreText ss

/-- More arguments, after the first one. -/
def Shape.moreText : List Shape → List Char
  | [] => [')']
  | s :: ss => ',' :: ' ' :: (s.text ++ Shape.moreText ss)

end

theorem Link.allText_append (ls ms : List Link) :
    allText (ls ++ ms) = allText ls ++ allText ms := by
  induction ls with
  | nil => rfl
  | cons l ls ih => rw [List.cons_append, allText, allText, ih, List.append_assoc]

theorem Shape.text_link (l : Link) : (s : Shape) → (s.link l).text = s.text ++ l.text
  | .negate s => by rw [link, text, text, text_link l s, List.cons_append]
  | .assign x s => by
      rw [link, text, text, text_link l s, List.append_assoc]
      rfl
  | .chain a ls => by
      rw [link, text, text, Link.allText_append, List.append_assoc, Link.allText, Link.allText,
        List.append_nil]

mutual

/-- The text of an expression is the text of its shape. -/
theorem Expr.text_shape : (e : Expr) → e.shape.text = e.render.toList
  | .int n _ => by
      have hchars : (toString n).toList = Nat.toDigits 10 n := Nat.toList_repr
      rw [shape, render, hchars]
      exact List.append_nil _
  | .float x s => List.append_nil _
  | .string t _ => List.append_nil _
  | .bool b _ => List.append_nil _
  | .var x => List.append_nil _
  | .ref x _ => by
      rw [shape, render, String.toList_append]
      exact List.append_nil _
  | .negate e _ => by
      rw [shape, render, String.toList_append, Shape.text, e.text_shape]
      rfl
  | .binary op l r _ => by
      simp only [shape, render, String.toList_append, Shape.text, Atom.text, Link.allText,
        l.text_shape, r.text_shape]
      simp
  | .assign x e _ => by
      simp only [shape, render, String.toList_append, Shape.text, e.text_shape]
      simp
  | .call c es _ => by
      rw [shape, render, Shape.text_link, c.text_shape, Link.text, text_shapes es]
      simp
  | .method r x es _ => by
      rw [shape, render, Shape.text_link, r.text_shape, Link.text, text_shapes es]
      simp
  | .fn xs b s => List.append_nil _

theorem Expr.text_shapes : (es : List Expr) →
    Shape.argsText (Expr.shapes es) = (String.intercalate ", " (Expr.renderAll es)).toList ++ [')']
  | [] => rfl
  | [e] => by
      rw [shapes, shapes, renderAll, renderAll, String.intercalate_singleton, Shape.argsText,
        Shape.moreText, e.text_shape]
  | e :: d :: es => by
      have hmore := text_shapes (d :: es)
      rw [renderAll] at hmore
      rw [shapes, renderAll, renderAll, String.intercalate_cons_cons, Shape.argsText, e.text_shape,
        shapes, Shape.moreText]
      rw [shapes, Shape.argsText] at hmore
      rw [hmore]
      simp

end

/-! ## Shapes as trees -/

mutual

/-- The tree without places in which nothing negated or assigned is called. -/
def Shape.tree : Shape → Expr
  | .negate s => .negate s.tree default
  | .assign x s => .assign ⟨x, default⟩ s.tree default
  | .chain a ls => Link.applyAll ls a.tree

def Atom.tree : Atom → Expr
  | .int n => .int n default
  | .string t | .verbatim t => .string t default
  | .bool b => .bool b default
  | .var x => .var ⟨x, default⟩
  | .ref x => .ref ⟨x, default⟩ default
  | .binary op l r => .binary op l.tree r.tree default

def Link.apply : Link → Expr → Expr
  | .call ss, e => .call e (Shape.trees ss) default
  | .method x ss, e => .method e ⟨x, default⟩ (Shape.trees ss) default

def Link.applyAll : List Link → Expr → Expr
  | [], e => e
  | l :: ls, e => Link.applyAll ls (l.apply e)

def Shape.trees : List Shape → List Expr
  | [] => []
  | s :: ss => s.tree :: Shape.trees ss

end

theorem Link.applyAll_append (ls ms : List Link) (e : Expr) :
    applyAll (ls ++ ms) e = applyAll ms (applyAll ls e) := by
  induction ls generalizing e with
  | nil => rfl
  | cons l ls ih => exact ih (l.apply e)

/-- The shape is a chain. -/
def Shape.isChain : Shape → Bool
  | .chain _ _ => true
  | _ => false

theorem Shape.tree_link {l : Link} {s : Shape} (h : s.isChain = true) :
    (s.link l).tree = l.apply s.tree := by
  cases s with
  | negate | assign => cases h
  | chain a ls => exact Link.applyAll_append ls [l] a.tree

theorem Shape.isChain_link {l : Link} {s : Shape} (h : s.isChain = true) :
    (s.link l).isChain = true := by
  cases s with
  | negate | assign => cases h
  | chain a ls => rfl

namespace Expr

mutual

/-- There is no function and no float in the expression. -/
def simple : Expr → Bool
  | .float _ _ | .fn _ _ _ => false
  | .int _ _ | .string _ _ | .bool _ _ | .var _ | .ref _ _ => true
  | .negate e _ | .assign _ e _ => e.simple
  | .binary _ l r _ => l.simple && r.simple
  | .call c es _ => c.simple && allSimple es
  | .method r _ es _ => r.simple && allSimple es

def allSimple : List Expr → Bool
  | [] => true
  | e :: es => e.simple && allSimple es

end

/-- The expression is neither a negation nor an assignment. -/
def isTight (e : Expr) : Bool :=
  !e.isNegation && !e.isAssignment

mutual

/-- What is called in the expression, or has a method called, is no negation and no assignment. -/
def tight : Expr → Bool
  | .int _ _ | .float _ _ | .string _ _ | .bool _ _ | .var _ | .ref _ _ | .fn _ _ _ => true
  | .negate e _ | .assign _ e _ => e.tight
  | .binary _ l r _ => l.tight && r.tight
  | .call c es _ => (c.isTight && c.tight) && allTight es
  | .method r _ es _ => (r.isTight && r.tight) && allTight es

def allTight : List Expr → Bool
  | [] => true
  | e :: es => e.tight && allTight es

end

theorem isChain_shape : (e : Expr) → e.isTight = true → e.tight = true → e.shape.isChain = true
  | .int _ _, _, _ | .float _ _, _, _ | .string _ _, _, _ | .bool _ _, _, _ | .var _, _, _
  | .ref _ _, _, _ | .binary _ _ _ _, _, _ | .fn _ _ _, _, _ => rfl
  | .negate _ _, h, _ | .assign _ _ _, h, _ => nomatch h
  | .call c es _, _, h => by
      obtain ⟨hc, -⟩ := Bool.and_eq_true_iff.mp h
      obtain ⟨hhead, hc⟩ := Bool.and_eq_true_iff.mp hc
      exact Shape.isChain_link (isChain_shape c hhead hc)
  | .method r x es _, _, h => by
      obtain ⟨hr, -⟩ := Bool.and_eq_true_iff.mp h
      obtain ⟨hhead, hr⟩ := Bool.and_eq_true_iff.mp hr
      exact Shape.isChain_link (isChain_shape r hhead hr)

mutual

/-- An expression in which nothing negated or assigned is called is the tree of its shape. -/
theorem tree_shape : (e : Expr) → e.simple = true → e.tight = true → e.shape.tree = e.bare
  | .int _ _, _, _ | .string _ _, _, _ | .bool _ _, _, _ | .var _, _, _ | .ref _ _, _, _ => rfl
  | .float _ _, h, _ | .fn _ _ _, h, _ => nomatch h
  | .negate e _, hs, ht => by
      rw [shape, Shape.tree, tree_shape e hs ht, bare_negate]
      rfl
  | .assign x e _, hs, ht => by
      rw [shape, Shape.tree, tree_shape e hs ht, bare_assign]
      rfl
  | .binary op l r _, hs, ht => by
      obtain ⟨hls, hrs⟩ := Bool.and_eq_true_iff.mp hs
      obtain ⟨hlt, hrt⟩ := Bool.and_eq_true_iff.mp ht
      rw [shape, Shape.tree, Link.applyAll, Atom.tree, tree_shape l hls hlt, tree_shape r hrs hrt,
        bare_binary]
      rfl
  | .call c es _, hs, ht => by
      obtain ⟨hcs, hess⟩ := Bool.and_eq_true_iff.mp hs
      obtain ⟨hct, hest⟩ := Bool.and_eq_true_iff.mp ht
      obtain ⟨hhead, hct⟩ := Bool.and_eq_true_iff.mp hct
      rw [shape, Shape.tree_link (isChain_shape c hhead hct), Link.apply, tree_shape c hcs hct,
        trees_shapes es hess hest, bare_call]
      rfl
  | .method r x es _, hs, ht => by
      obtain ⟨hrs, hess⟩ := Bool.and_eq_true_iff.mp hs
      obtain ⟨hrt, hest⟩ := Bool.and_eq_true_iff.mp ht
      obtain ⟨hhead, hrt⟩ := Bool.and_eq_true_iff.mp hrt
      rw [shape, Shape.tree_link (isChain_shape r hhead hrt), Link.apply, tree_shape r hrs hrt,
        trees_shapes es hess hest, bare_method]
      rfl

theorem trees_shapes : (es : List Expr) → allSimple es = true → allTight es = true →
    Shape.trees (shapes es) = bareAll es
  | [], _, _ => rfl
  | e :: es, hs, ht => by
      obtain ⟨hes, hess⟩ := Bool.and_eq_true_iff.mp hs
      obtain ⟨het, hest⟩ := Bool.and_eq_true_iff.mp ht
      rw [shapes, Shape.trees, tree_shape e hes het, trees_shapes es hess hest, bareAll_cons]

end

end Expr

/-! ## Shapes with names -/

mutual

/-- The names in the shape are identifiers, and all of its text is looked into. -/
def Shape.Proper : Shape → Prop
  | .negate s => s.Proper
  | .assign x s => IsIdentifier x ∧ s.Proper
  | .chain a ls => a.Proper ∧ Link.AllProper ls

def Atom.Proper : Atom → Prop
  | .int _ | .string _ | .bool _ => True
  | .var x | .ref x => IsIdentifier x
  | .binary _ l r => l.Proper ∧ r.Proper
  | .verbatim _ => False

def Link.Proper : Link → Prop
  | .call ss => Shape.AllProper ss
  | .method x ss => IsIdentifier x ∧ Shape.AllProper ss

def Link.AllProper : List Link → Prop
  | [] => True
  | l :: ls => l.Proper ∧ Link.AllProper ls

def Shape.AllProper : List Shape → Prop
  | [] => True
  | s :: ss => s.Proper ∧ Shape.AllProper ss

end

theorem Link.allProper_concat {l : Link} (hl : l.Proper) :
    (ls : List Link) → AllProper ls → AllProper (ls ++ [l])
  | [], _ => ⟨hl, trivial⟩
  | _ :: ls, h => ⟨h.1, allProper_concat hl ls h.2⟩

theorem Shape.proper_link {l : Link} (hl : l.Proper) : (s : Shape) → s.Proper → (s.link l).Proper
  | .negate s, h => proper_link hl s h
  | .assign _ s, h => ⟨h.1, proper_link hl s h.2⟩
  | .chain _ ls, h => ⟨h.1, Link.allProper_concat hl ls h.2⟩

mutual

theorem Expr.proper_shape : (e : Expr) → e.Named → e.simple = true → e.shape.Proper
  | .int _ _, _, _ | .string _ _, _, _ | .bool _ _, _, _ => ⟨trivial, trivial⟩
  | .float _ _, _, h | .fn _ _ _, _, h => nomatch h
  | .var _, h, _ | .ref _ _, h, _ => ⟨h, trivial⟩
  | .negate e _, h, hs => proper_shape e h hs
  | .assign _ e _, h, hs => ⟨h.1, proper_shape e h.2 hs⟩
  | .binary _ l r _, h, hs => by
      obtain ⟨hls, hrs⟩ := Bool.and_eq_true_iff.mp hs
      exact ⟨⟨proper_shape l h.1 hls, proper_shape r h.2 hrs⟩, trivial⟩
  | .call c es _, h, hs => by
      obtain ⟨hcs, hess⟩ := Bool.and_eq_true_iff.mp hs
      exact Shape.proper_link (l := .call (shapes es)) (allProper_shapes es h.2 hess) _
        (proper_shape c h.1 hcs)
  | .method r x es _, h, hs => by
      obtain ⟨hrs, hess⟩ := Bool.and_eq_true_iff.mp hs
      exact Shape.proper_link (l := .method x.name (shapes es))
        ⟨h.2.1, allProper_shapes es h.2.2 hess⟩ _ (proper_shape r h.1 hrs)

theorem Expr.allProper_shapes : (es : List Expr) → Expr.AllNamed es → Expr.allSimple es = true →
    Shape.AllProper (Expr.shapes es)
  | [], _, _ => trivial
  | e :: es, h, hs => by
      obtain ⟨hes, hess⟩ := Bool.and_eq_true_iff.mp hs
      exact ⟨proper_shape e h.1 hes, allProper_shapes es h.2 hess⟩

end

end HamScript
