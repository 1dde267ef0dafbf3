/-
# Trees that are alike

Two trees are alike if they have the same shape and the same texts.  A `Likeness` says what is left
open beyond that:

    spans     which spans may stand at one place of the two trees
    strays    which spans a `break` may have that is in no loop of its function
    names     which names the trees may mention
    loops     whether the trees may have loops

The relation is meant for runs of two programs in step (`HamScript.Proofs.Eval.Likeness`): whatever
a `Likeness` says of the trees, the runs keep it.  The same tree on both sides is a use of its own:
a tree is alike to itself without loops exactly if it has none.

Proved here: a tree is alike to what `relocate` makes of it (`Stmt.allAlike_moved`).
-/
import Mathlib.Data.List.Forall2
import HamScript.Proofs.Syntax.Relocate

namespace HamScript

open Source (Position Span)

/-- What two trees that are alike may differ in, and what they may have. -/
structure Likeness where
  /-- The spans that may stand at one place. -/
  spans : Span → Span → Prop
  /-- The spans of a `break` that is in no loop of its function. -/
  strays : Span → Span → Prop
  /-- The names that may be mentioned. -/
  names : String → Prop
  /-- There may be loops. -/
  loops : Prop

/-- The same name, which may be mentioned, at spans that may stand at one place. -/
structure Ident.Alike (L : Likeness) (x x' : Ident) : Prop where
  name_eq : x.name = x'.name
  allowed : L.names x.name
  spans : L.spans x.span x'.span

mutual

inductive Expr.Alike (L : Likeness) : Expr → Expr → Prop
  | int (n : Nat) {s s' : Span} : L.spans s s' → Expr.Alike L (.int n s) (.int n s')
  | float (x : Float) {s s' : Span} : L.spans s s' → Expr.Alike L (.float x s) (.float x s')
  | string (t : String) {s s' : Span} : L.spans s s' → Expr.Alike L (.string t s) (.string t s')
  | bool (b : Bool) {s s' : Span} : L.spans s s' → Expr.Alike L (.bool b s) (.bool b s')
  | var {x x' : Ident} : x.Alike L x' → Expr.Alike L (.var x) (.var x')
  | ref {x x' : Ident} {s s' : Span} :
      x.Alike L x' → L.spans s s' → Expr.Alike L (.ref x s) (.ref x' s')
  | negate {e e' : Expr} {s s' : Span} :
      Expr.Alike L e e' → L.spans s s' → Expr.Alike L (.negate e s) (.negate e' s')
  | binary (op : BinaryOp) {l l' r r' : Expr} {s s' : Span} :
      Expr.Alike L l l' → Expr.Alike L r r' → L.spans s s' →
      Expr.Alike L (.binary op l r s) (.binary op l' r' s')
  | assign {x x' : Ident} {e e' : Expr} {s s' : Span} :
      x.Alike L x' → Expr.Alike L e e' → L.spans s s' →
      Expr.Alike L (.assign x e s) (.assign x' e' s')
  | call {c c' : Expr} {es es' : List Expr} {s s' : Span} :
      Expr.Alike L c c' → Expr.AllAlike L es es' → L.spans s s' →
      Expr.Alike L (.call c es s) (.call c' es' s')
  | method {r r' : Expr} {x x' : Ident} {es es' : List Expr} {s s' : Span} :
      Expr.Alike L r r' → x.Alike L x' → Expr.AllAlike L es es' → L.spans s s' →
      Expr.Alike L (.method r x es s) (.method r' x' es' s')
  /-- The body of a function is in no loop, wherever the function stands. -/
  | fn {xs xs' : List Ident} {b b' : Block} {s s' : Span} :
      List.Forall₂ (Ident.Alike L) xs xs' → Stmt.AllAlike L false b b' → L.spans s s' →
      Expr.Alike L (.fn xs b s) (.fn xs' b' s')

inductive Expr.AllAlike (L : Likeness) : List Expr → List Expr → Prop
  | nil : Expr.AllAlike L [] []
  | cons {e e' : Expr} {es es' : List Expr} :
      Expr.Alike L e e' → Expr.AllAlike L es es' → Expr.AllAlike L (e :: es) (e' :: es')

/-- The flag says whether the statements are in a loop of their function. -/
inductive Stmt.Alike (L : Likeness) : Bool → Stmt → Stmt → Prop
  | letIn (inLoop : Bool) {x x' : Ident} {e e' : Expr} {s s' : Span} :
      x.Alike L x' → Expr.Alike L e e' → L.spans s s' →
      Stmt.Alike L inLoop (.letIn x e s) (.letIn x' e' s')
  | fnDecl (inLoop : Bool) {x x' : Ident} {xs xs' : List Ident} {b b' : Block} {s s' : Span} :
      x.Alike L x' → List.Forall₂ (Ident.Alike L) xs xs' → Stmt.AllAlike L false b b' →
      L.spans s s' → Stmt.Alike L inLoop (.fnDecl x xs b s) (.fnDecl x' xs' b' s')
  | ifThen {inLoop : Bool} {c c' : Expr} {b b' : Block} {s s' : Span} :
      Expr.Alike L c c' → Stmt.AllAlike L inLoop b b' → L.spans s s' →
      Stmt.Alike L inLoop (.ifThen c b s) (.ifThen c' b' s')
  | whileDo (inLoop : Bool) {c c' : Expr} {b b' : Block} {s s' : Span} :
      L.loops → Expr.Alike L c c' → Stmt.AllAlike L true b b' → L.spans s s' →
      Stmt.Alike L inLoop (.whileDo c b s) (.whileDo c' b' s')
  | returnUnit (inLoop : Bool) {s s' : Span} :
      L.spans s s' → Stmt.Alike L inLoop (.returnUnit s) (.returnUnit s')
  | returnValue (inLoop : Bool) {e e' : Expr} {s s' : Span} :
      Expr.Alike L e e' → L.spans s s' →
      Stmt.Alike L inLoop (.returnValue e s) (.returnValue e' s')
  | breakOut {inLoop : Bool} {s s' : Span} :
      L.spans s s' → (inLoop = false → L.strays s s') →
      Stmt.Alike L inLoop (.breakOut s) (.breakOut s')
  | expr (inLoop : Bool) {e e' : Expr} {s s' : Span} :
      Expr.Alike L e e' → L.spans s s' → Stmt.Alike L inLoop (.expr e s) (.expr e' s')

inductive Stmt.AllAlike (L : Likeness) : Bool → List Stmt → List Stmt → Prop
  | nil (inLoop : Bool) : Stmt.AllAlike L inLoop [] []
  | cons {inLoop : Bool} {s s' : Stmt} {b b' : List Stmt} :
      Stmt.Alike L inLoop s s' → Stmt.AllAlike L inLoop b b' →
      Stmt.AllAlike L inLoop (s :: b) (s' :: b')

end

section
variable {L : Likeness} {e e' : Expr}

theorem Expr.Alike.span (h : e.Alike L e') : L.spans e.span e'.span := by
  cases h with
  | int _ hs | float _ hs | string _ hs | bool _ hs => exact hs
  | var hx => exact hx.spans
  | ref _ hs | negate _ hs => exact hs
  | binary _ _ _ hs | assign _ _ hs | call _ _ hs | fn _ _ hs => exact hs
  | method _ _ _ hs => exact hs

theorem Expr.Alike.target? (h : e.Alike L e') :
    Option.Rel (Ident.Alike L) e.target? e'.target? := by
  cases h with
  | var hx | ref hx _ => exact .some hx
  | int | float | string | bool | negate | binary | assign | call | method | fn => exact .none

theorem Ident.map_name_of_alike {xs xs' : List Ident} (h : List.Forall₂ (Ident.Alike L) xs xs') :
    xs.map Ident.name = xs'.map Ident.name := by
  induction h with
  | nil => rfl
  | cons hx _ ih => rw [List.map_cons, List.map_cons, hx.name_eq, ih]

theorem Ident.allowed_of_alike {xs xs' : List Ident} (h : List.Forall₂ (Ident.Alike L) xs xs') :
    ∀ m ∈ xs.map Ident.name, L.names m := by
  induction h with
  | nil => intro m hm; exact nomatch hm
  | cons hx _ ih =>
      intro m hm
      rcases List.mem_cons.mp hm with rfl | hm
      · exact hx.allowed
      · exact ih m hm

end

/-! ## Spans, names and loops of a tree -/

mutual

/-- The spans in an expression, those of its names among them. -/
def Expr.spans : Expr → List Span
  | .int _ s | .float _ s | .string _ s | .bool _ s => [s]
  | .var x => [x.span]
  | .ref x s => [x.span, s]
  | .negate e s => s :: e.spans
  | .binary _ l r s => s :: (l.spans ++ r.spans)
  | .assign x e s => s :: x.span :: e.spans
  | .call c es s => s :: (c.spans ++ Expr.allSpans es)
  | .method r x es s => s :: x.span :: (r.spans ++ Expr.allSpans es)
  | .fn xs b s => s :: (xs.map Ident.span ++ Stmt.allSpans b)

def Expr.allSpans : List Expr → List Span
  | [] => []
  | e :: es => e.spans ++ Expr.allSpans es

/-- The spans in a statement. -/
def Stmt.spans : Stmt → List Span
  | .letIn x e s => s :: x.span :: e.spans
  | .fnDecl x xs b s => s :: x.span :: (xs.map Ident.span ++ Stmt.allSpans b)
  | .ifThen c b s | .whileDo c b s => s :: (c.spans ++ Stmt.allSpans b)
  | .returnUnit s | .breakOut s => [s]
  | .returnValue e s | .expr e s => s :: e.spans

def Stmt.allSpans : List Stmt → List Span
  | [] => []
  | s :: b => s.spans ++ Stmt.allSpans b

end

mutual

/-- The names in an expression, those of methods and parameters among them. -/
def Expr.names : Expr → List String
  | .int _ _ | .float _ _ | .string _ _ | .bool _ _ => []
  | .var x | .ref x _ => [x.name]
  | .negate e _ => e.names
  | .binary _ l r _ => l.names ++ r.names
  | .assign x e _ => x.name :: e.names
  | .call c es _ => c.names ++ Expr.allNames es
  | .method r x es _ => x.name :: (r.names ++ Expr.allNames es)
  | .fn xs b _ => xs.map Ident.name ++ Stmt.allNames b

def Expr.allNames : List Expr → List String
  | [] => []
  | e :: es => e.names ++ Expr.allNames es

/-- The names in a statement. -/
def Stmt.names : Stmt → List String
  | .letIn x e _ => x.name :: e.names
  | .fnDecl x xs b _ => x.name :: (xs.map Ident.name ++ Stmt.allNames b)
  | .ifThen c b _ | .whileDo c b _ => c.names ++ Stmt.allNames b
  | .returnUnit _ | .breakOut _ => []
  | .returnValue e _ | .expr e _ => e.names

def Stmt.allNames : List Stmt → List String
  | [] => []
  | s :: b => s.names ++ Stmt.allNames b

end

mutual

/-- No function in the expression has a loop. -/
def Expr.whileFree : Expr → Bool
  | .int _ _ | .float _ _ | .string _ _ | .bool _ _ | .var _ | .ref _ _ => true
  | .negate e _ => e.whileFree
  | .binary _ l r _ => l.whileFree && r.whileFree
  | .assign _ e _ => e.whileFree
  | .call c es _ => c.whileFree && Expr.allWhileFree es
  | .method r _ es _ => r.whileFree && Expr.allWhileFree es
  | .fn _ b _ => Stmt.allWhileFree b

def Expr.allWhileFree : List Expr → Bool
  | [] => true
  | e :: es => e.whileFree && Expr.allWhileFree es

/-- There is no loop in the statement, nor in a function in it. -/
def Stmt.whileFree : Stmt → Bool
  | .letIn _ e _ => e.whileFree
  | .fnDecl _ _ b _ => Stmt.allWhileFree b
  | .ifThen c b _ => c.whileFree && Stmt.allWhileFree b
  | .whileDo _ _ _ => false
  | .returnUnit _ | .breakOut _ => true
  | .returnValue e _ | .expr e _ => e.whileFree

def Stmt.allWhileFree : List Stmt → Bool
  | [] => true
  | s :: b => s.whileFree && Stmt.allWhileFree b

end

mutual

/-- The spans of the `break`s in functions of the expression that are in no loop of their
function. -/
def Expr.strays : Expr → List Span
  | .int _ _ | .float _ _ | .string _ _ | .bool _ _ | .var _ | .ref _ _ => []
  | .negate e _ => e.strays
  | .binary _ l r _ => l.strays ++ r.strays
  | .assign _ e _ => e.strays
  | .call c es _ => c.strays ++ Expr.allStrays es
  | .method r _ es _ => r.strays ++ Expr.allStrays es
  | .fn _ b _ => Stmt.allStrays false b

def Expr.allStrays : List Expr → List Span
  | [] => []
  | e :: es => e.strays ++ Expr.allStrays es

/-- The spans of the `break`s in the statement that are in no loop of their function, where the flag
says whether the statement itself is in one. -/
def Stmt.strays (inLoop : Bool) : Stmt → List Span
  | .letIn _ e _ => e.strays
  | .fnDecl _ _ b _ => Stmt.allStrays false b
  | .ifThen c b _ => c.strays ++ Stmt.allStrays inLoop b
  | .whileDo c b _ => c.strays ++ Stmt.allStrays true b
  | .returnUnit _ => []
  | .returnValue e _ | .expr e _ => e.strays
  | .breakOut s => if inLoop then [] else [s]

def Stmt.allStrays (inLoop : Bool) : List Stmt → List Span
  | [] => []
  | s :: b => s.strays inLoop ++ Stmt.allStrays inLoop b

end

section
variable {s : Span}

theorem mem_append_of_imp {a b c d : List Span} (hac : s ∈ a → s ∈ c) (hbd : s ∈ b → s ∈ d)
    (h : s ∈ a ++ b) : s ∈ c ++ d :=
  List.mem_append.mpr ((List.mem_append.mp h).imp hac hbd)

mutual

theorem Expr.mem_spans_of_mem_strays : (e : Expr) → s ∈ e.strays → s ∈ e.spans
  | .int _ _, h | .float _ _, h | .string _ _, h | .bool _ _, h | .var _, h | .ref _ _, h =>
      absurd h List.not_mem_nil
  | .negate e _, h => .tail _ (e.mem_spans_of_mem_strays h)
  | .binary _ l r _, h =>
      .tail _ (mem_append_of_imp l.mem_spans_of_mem_strays r.mem_spans_of_mem_strays h)
  | .assign _ e _, h => .tail _ (.tail _ (e.mem_spans_of_mem_strays h))
  | .call c es _, h =>
      .tail _ (mem_append_of_imp c.mem_spans_of_mem_strays
        (Expr.mem_allSpans_of_mem_allStrays es) h)
  | .method r _ es _, h =>
      .tail _ (.tail _ (mem_append_of_imp r.mem_spans_of_mem_strays
        (Expr.mem_allSpans_of_mem_allStrays es) h))
  | .fn _ b _, h =>
      .tail _ (List.mem_append_right _ (Stmt.mem_allSpans_of_mem_allStrays b false h))

theorem Expr.mem_allSpans_of_mem_allStrays : (es : List Expr) →
    s ∈ Expr.allStrays es → s ∈ Expr.allSpans es
  | [], h => absurd h List.not_mem_nil
  | e :: es, h =>
      mem_append_of_imp e.mem_spans_of_mem_strays (Expr.mem_allSpans_of_mem_allStrays es) h

theorem Stmt.mem_spans_of_mem_strays : (t : Stmt) → (inLoop : Bool) →
    s ∈ t.strays inLoop → s ∈ t.spans
  | .letIn _ e _, _, h => .tail _ (.tail _ (e.mem_spans_of_mem_strays h))
  | .fnDecl _ _ b _, _, h =>
      .tail _ (.tail _ (List.mem_append_right _ (Stmt.mem_allSpans_of_mem_allStrays b false h)))
  | .ifThen c b _, inLoop, h =>
      .tail _ (mem_append_of_imp c.mem_spans_of_mem_strays
        (Stmt.mem_allSpans_of_mem_allStrays b inLoop) h)
  | .whileDo c b _, _, h =>
      .tail _ (mem_append_of_imp c.mem_spans_of_mem_strays
        (Stmt.mem_allSpans_of_mem_allStrays b true) h)
  | .returnUnit _, _, h | .breakOut _, true, h => absurd h List.not_mem_nil
  | .returnValue e _, _, h | .expr e _, _, h => .tail _ (e.mem_spans_of_mem_strays h)
  | .breakOut _, false, h => h

theorem Stmt.mem_allSpans_of_mem_allStrays : (b : List Stmt) → (inLoop : Bool) →
    s ∈ Stmt.allStrays inLoop b → s ∈ Stmt.allSpans b
  | [], _, h => absurd h List.not_mem_nil
  | t :: b, inLoop, h =>
      mem_append_of_imp (t.mem_spans_of_mem_strays inLoop)
        (Stmt.mem_allSpans_of_mem_allStrays b inLoop) h

end

end

/-! ## A tree moved in two ways -/

namespace Likeness

/-- The spans of a tree, and those of its stray `break`s, may be moved by `f` on the one side and by
`g` on the other. -/
structure Moves (L : Likeness) (f g : Position → Position) (spans strays : List Span) : Prop where
  spans : ∀ s ∈ spans, L.spans (s.relocate f) (s.relocate g)
  strays : ∀ s ∈ strays, L.strays (s.relocate f) (s.relocate g)

section
variable {L : Likeness} {f g : Position → Position} {s : Span} {ss ss' ts ts' : List Span}

theorem Moves.head (h : L.Moves f g (s :: ss) ts) : L.spans (s.relocate f) (s.relocate g) :=
  h.spans s List.mem_cons_self

theorem Moves.tail (h : L.Moves f g (s :: ss) ts) : L.Moves f g ss ts :=
  ⟨(List.forall_mem_cons.mp h.spans).2, h.strays⟩

theorem Moves.left (h : L.Moves f g (ss ++ ss') (ts ++ ts')) : L.Moves f g ss ts :=
  ⟨(List.forall_mem_append.mp h.spans).1, (List.forall_mem_append.mp h.strays).1⟩

theorem Moves.right (h : L.Moves f g (ss ++ ss') (ts ++ ts')) : L.Moves f g ss' ts' :=
  ⟨(List.forall_mem_append.mp h.spans).2, (List.forall_mem_append.mp h.strays).2⟩

/-- The parameters of a function have no `break`s. -/
theorem Moves.params (h : L.Moves f g (ss ++ ss') ts) :
    ∀ s ∈ ss, L.spans (s.relocate f) (s.relocate g) :=
  (List.forall_mem_append.mp h.spans).1

theorem Moves.body (h : L.Moves f g (ss ++ ss') ts) : L.Moves f g ss' ts :=
  ⟨(List.forall_mem_append.mp h.spans).2, h.strays⟩

end

/-- The names may be mentioned. -/
def Admits (L : Likeness) (names : List String) : Prop :=
  ∀ m ∈ names, L.names m

variable {L : Likeness} {m : String} {names names' : List String}

theorem Admits.head (h : L.Admits (m :: names)) : L.names m :=
  h m List.mem_cons_self

theorem Admits.tail (h : L.Admits (m :: names)) : L.Admits names :=
  (List.forall_mem_cons.mp h).2

theorem Admits.left (h : L.Admits (names ++ names')) : L.Admits names :=
  (List.forall_mem_append.mp h).1

theorem Admits.right (h : L.Admits (names ++ names')) : L.Admits names' :=
  (List.forall_mem_append.mp h).2

/-- A part of a tree that may have loops, or has none, is of this kind too. -/
theorem loops_or_left {a b : Bool} (h : L.loops ∨ (a && b) = true) : L.loops ∨ a = true :=
  h.imp_right fun hab => (Bool.and_eq_true_iff.mp hab).1

theorem loops_or_right {a b : Bool} (h : L.loops ∨ (a && b) = true) : L.loops ∨ b = true :=
  h.imp_right fun hab => (Bool.and_eq_true_iff.mp hab).2

end Likeness

section
variable {L : Likeness} {f g : Position → Position}

theorem Ident.alike_relocate {x : Ident} (hn : L.names x.name)
    (hs : L.spans (x.span.relocate f) (x.span.relocate g)) :
    (x.relocate f).Alike L (x.relocate g) :=
  ⟨rfl, hn, hs⟩

theorem Ident.allAlike_relocate {xs : List Ident} (hn : L.Admits (xs.map Ident.name))
    (hs : ∀ s ∈ xs.map Ident.span, L.spans (s.relocate f) (s.relocate g)) :
    List.Forall₂ (Ident.Alike L) (xs.map (Ident.relocate f)) (xs.map (Ident.relocate g)) := by
  induction xs with
  | nil => exact .nil
  | cons x xs ih =>
      obtain ⟨hx, hxs⟩ := List.forall_mem_cons.mp hs
      exact .cons (Ident.alike_relocate hn.head hx) (ih hn.tail hxs)

mutual

theorem Expr.alike_moved : (e : Expr) → L.Admits e.names →
    L.Moves f g e.spans e.strays → L.loops ∨ e.whileFree = true →
    (e.relocate f).Alike L (e.relocate g)
  | .int n _, _, hs, _ => .int n hs.head
  | .float x _, _, hs, _ => .float x hs.head
  | .string t _, _, hs, _ => .string t hs.head
  | .bool b _, _, hs, _ => .bool b hs.head
  | .var _, hn, hs, _ => .var (Ident.alike_relocate hn.head hs.head)
  | .ref _ _, hn, hs, _ => .ref (Ident.alike_relocate hn.head hs.head) hs.tail.head
  | .negate e _, hn, hs, hl => .negate (Expr.alike_moved e hn hs.tail hl) hs.head
  | .binary op l r _, hn, hs, hl =>
      .binary op (Expr.alike_moved l hn.left hs.tail.left (Likeness.loops_or_left hl))
        (Expr.alike_moved r hn.right hs.tail.right (Likeness.loops_or_right hl)) hs.head
  | .assign _ e _, hn, hs, hl =>
      .assign (Ident.alike_relocate hn.head hs.tail.head)
        (Expr.alike_moved e hn.tail hs.tail.tail hl) hs.head
  | .call c es _, hn, hs, hl =>
      .call (Expr.alike_moved c hn.left hs.tail.left (Likeness.loops_or_left hl))
        (Expr.allAlike_moved es hn.right hs.tail.right (Likeness.loops_or_right hl)) hs.head
  | .method r _ es _, hn, hs, hl =>
      .method (Expr.alike_moved r hn.tail.left hs.tail.tail.left (Likeness.loops_or_left hl))
        (Ident.alike_relocate hn.head hs.tail.head)
        (Expr.allAlike_moved es hn.tail.right hs.tail.tail.right (Likeness.loops_or_right hl))
        hs.head
  | .fn _ b _, hn, hs, hl =>
      .fn (Ident.allAlike_relocate hn.left hs.tail.params)
        (Stmt.allAlike_moved b false hn.right hs.tail.body hl) hs.head

theorem Expr.allAlike_moved : (es : List Expr) → L.Admits (Expr.allNames es) →
    L.Moves f g (Expr.allSpans es) (Expr.allStrays es) →
    L.loops ∨ Expr.allWhileFree es = true →
    Expr.AllAlike L (Expr.relocateAll f es) (Expr.relocateAll g es)
  | [], _, _, _ => .nil
  | e :: es, hn, hs, hl =>
      .cons (Expr.alike_moved e hn.left hs.left (Likeness.loops_or_left hl))
        (Expr.allAlike_moved es hn.right hs.right (Likeness.loops_or_right hl))

theorem Stmt.alike_moved : (t : Stmt) → (inLoop : Bool) → L.Admits t.names →
    L.Moves f g t.spans (t.strays inLoop) →
    L.loops ∨ t.whileFree = true → (t.relocate f).Alike L inLoop (t.relocate g)
  | .letIn _ e _, inLoop, hn, hs, hl =>
      .letIn inLoop (Ident.alike_relocate hn.head hs.tail.head)
        (Expr.alike_moved e hn.tail hs.tail.tail hl) hs.head
  | .fnDecl _ _ b _, inLoop, hn, hs, hl =>
      .fnDecl inLoop (Ident.alike_relocate hn.head hs.tail.head)
        (Ident.allAlike_relocate hn.tail.left hs.tail.tail.params)
        (Stmt.allAlike_moved b false hn.tail.right hs.tail.tail.body hl) hs.head
  | .ifThen c b _, inLoop, hn, hs, hl =>
      .ifThen (Expr.alike_moved c hn.left hs.tail.left (Likeness.loops_or_left hl))
        (Stmt.allAlike_moved b inLoop hn.right hs.tail.right (Likeness.loops_or_right hl)) hs.head
  | .whileDo c b _, inLoop, hn, hs, hl =>
      have hloops : L.loops := hl.resolve_right Bool.false_ne_true
      .whileDo inLoop hloops (Expr.alike_moved c hn.left hs.tail.left (.inl hloops))
        (Stmt.allAlike_moved b true hn.right hs.tail.right (.inl hloops)) hs.head
  | .returnUnit _, inLoop, _, hs, _ => .returnUnit inLoop hs.head
  | .returnValue e _, inLoop, hn, hs, hl =>
      .returnValue inLoop (Expr.alike_moved e hn hs.tail hl) hs.head
  | .breakOut s, inLoop, _, hs, _ => by
      refine .breakOut hs.head ?_
      rintro rfl
      exact hs.strays s List.mem_cons_self
  | .expr e _, inLoop, hn, hs, hl => .expr inLoop (Expr.alike_moved e hn hs.tail hl) hs.head

theorem Stmt.allAlike_moved : (b : List Stmt) → (inLoop : Bool) → L.Admits (Stmt.allNames b) →
    L.Moves f g (Stmt.allSpans b) (Stmt.allStrays inLoop b) →
    L.loops ∨ Stmt.allWhileFree b = true →
    Stmt.AllAlike L inLoop (Stmt.relocateAll f b) (Stmt.relocateAll g b)
  | [], inLoop, _, _, _ => .nil inLoop
  | t :: b, inLoop, hn, hs, hl =>
      .cons (Stmt.alike_moved t inLoop hn.left hs.left (Likeness.loops_or_left hl))
        (Stmt.allAlike_moved b inLoop hn.right hs.right (Likeness.loops_or_right hl))

end

theorem Stmt.allAlike_relocate (hnames : ∀ m, L.names m) (b : List Stmt) (inLoop : Bool)
    (hs : L.Moves id g (Stmt.allSpans b) (Stmt.allStrays inLoop b))
    (hl : L.loops ∨ Stmt.allWhileFree b = true) :
    Stmt.AllAlike L inLoop b (Stmt.relocateAll g b) := by
  have h := Stmt.allAlike_moved b inLoop (fun m _ => hnames m) hs hl
  rwa [Stmt.relocateAll_id] at h

end

/-- Statements are alike to themselves. -/
theorem Stmt.allAlike_self_of_names {L : Likeness} {b : List Stmt} (inLoop : Bool)
    (hnames : L.Admits (Stmt.allNames b)) (hspans : ∀ s ∈ Stmt.allSpans b, L.spans s s)
    (hstrays : ∀ s ∈ Stmt.allStrays inLoop b, L.strays s s)
    (hl : L.loops ∨ Stmt.allWhileFree b = true) : Stmt.AllAlike L inLoop b b := by
  have hmoves : L.Moves id id (Stmt.allSpans b) (Stmt.allStrays inLoop b) := ⟨hspans, hstrays⟩
  have h := Stmt.allAlike_moved b inLoop hnames hmoves hl
  rwa [Stmt.relocateAll_id] at h

theorem Stmt.allAlike_self_of_strays {L : Likeness} (hnames : ∀ m, L.names m) {b : List Stmt}
    (inLoop : Bool) (hspans : ∀ s ∈ Stmt.allSpans b, L.spans s s)
    (hstrays : ∀ s ∈ Stmt.allStrays inLoop b, L.strays s s)
    (hl : L.loops ∨ Stmt.allWhileFree b = true) : Stmt.AllAlike L inLoop b b :=
  Stmt.allAlike_self_of_names inLoop (fun m _ => hnames m) hspans hstrays hl

theorem Stmt.allAlike_self {L : Likeness} (hnames : ∀ m, L.names m) {b : List Stmt} (inLoop : Bool)
    (hs : ∀ s ∈ Stmt.allSpans b, L.spans s s ∧ L.strays s s)
    (hl : L.loops ∨ Stmt.allWhileFree b = true) : Stmt.AllAlike L inLoop b b :=
  Stmt.allAlike_self_of_strays hnames inLoop (fun s hmem => (hs s hmem).1)
    (fun s hmem => (hs s (Stmt.mem_allSpans_of_mem_allStrays b inLoop hmem)).2) hl

end HamScript
