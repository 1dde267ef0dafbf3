/-
# The parts of a program

The expressions that occur in a tree, at any depth, in the bodies of functions too.  An expression
that occurs in a parsed program has identifiers for its names, because every name in the program is
the text of a token that is an identifier.
-/
import HamScript.Proofs.Syntax.Realises
import HamScript.Proofs.Token.Spelling

namespace HamScript

open Grammar (Derives IsName Phrase)
open Lexeme (IsIdentifier IsLexeme)
open Source (Glyph)

/-! ## Parts -/

mutual

/-- The expressions in an expression, itself the first of them. -/
def Expr.parts : Expr → List Expr
  | .int n s => [.int n s]
  | .float x s => [.float x s]
  | .string t s => [.string t s]
  | .bool b s => [.bool b s]
  | .var x => [.var x]
  | .ref x s => [.ref x s]
  | .negate e s => .negate e s :: e.parts
  | .binary op l r s => .binary op l r s :: (l.parts ++ r.parts)
  | .assign x e s => .assign x e s :: e.parts
  | .call c es s => .call c es s :: (c.parts ++ Expr.allParts es)
  | .method r x es s => .method r x es s :: (r.parts ++ Expr.allParts es)
  | .fn xs b s => .fn xs b s :: Stmt.allParts b

def Expr.allParts : List Expr → List Expr
  | [] => []
  | e :: es => e.parts ++ Expr.allParts es

/-- The expressions in a statement. -/
def Stmt.parts : Stmt → List Expr
  | .letIn _ e _ => e.parts
  | .fnDecl _ _ b _ => Stmt.allParts b
  | .ifThen c b _ | .whileDo c b _ => c.parts ++ Stmt.allParts b
  | .returnUnit _ | .breakOut _ => []
  | .returnValue e _ | .expr e _ => e.parts

def Stmt.allParts : List Stmt → List Expr
  | [] => []
  | s :: b => s.parts ++ Stmt.allParts b

end

theorem Expr.mem_parts_self (e : Expr) : e ∈ e.parts := by
  cases e <;> exact List.mem_cons_self

/-- The expression occurs in a program that a source is parsed as. -/
def Expr.Parsed (e : Expr) : Prop :=
  ∃ bytes ending P, Program.ofGlyphs (Glyph.ofBytes bytes) ending = .ok P ∧ e ∈ Stmt.allParts P

/-! ## Names -/

mutual

/-- The names in an expression are identifiers.  Functions are not looked into. -/
def Expr.Named : Expr → Prop
  | .int _ _ | .float _ _ | .string _ _ | .bool _ _ | .fn _ _ _ => True
  | .var x | .ref x _ => IsIdentifier x.name
  | .negate e _ => e.Named
  | .binary _ l r _ => l.Named ∧ r.Named
  | .assign x e _ => IsIdentifier x.name ∧ e.Named
  | .call c es _ => c.Named ∧ Expr.AllNamed es
  | .method r x es _ => r.Named ∧ IsIdentifier x.name ∧ Expr.AllNamed es

def Expr.AllNamed : List Expr → Prop
  | [] => True
  | e :: es => e.Named ∧ Expr.AllNamed es

end

/-- Expressions whose parts are all named are named. -/
theorem Expr.allNamed_of_parts {es : List Expr} (h : ∀ e ∈ Expr.allParts es, e.Named) :
    Expr.AllNamed es := by
  induction es with
  | nil => trivial
  | cons e es ih =>
      exact ⟨h e (List.mem_append_left _ e.mem_parts_self),
        ih fun d hd => h d (List.mem_append_right _ hd)⟩

/-- The expressions in a phrase. -/
def Grammar.Phrase.parts : Phrase → List Expr
  | .expr _ e => e.parts
  | .args es => Expr.allParts es
  | .block b | .stmts b _ => Stmt.allParts b
  | .stmt s _ => s.parts

/-- The tokens that are names have identifiers for their texts. -/
def Token.Named (ts : List Token) : Prop :=
  ∀ t ∈ ts, t.kind = .ident → IsIdentifier t.text

theorem Token.Named.append {ts us : List Token} (h : Token.Named (ts ++ us)) :
    Token.Named ts ∧ Token.Named us :=
  ⟨fun t ht => h t (List.mem_append_left _ ht), fun t ht => h t (List.mem_append_right _ ht)⟩

theorem Token.Named.cons {t : Token} {ts : List Token} (h : Token.Named (t :: ts)) :
    Token.Named ts :=
  fun u hu => h u (List.mem_cons_of_mem t hu)

theorem Token.Named.name {t : Token} {ts : List Token} {x : Ident} (h : Token.Named (t :: ts))
    (hx : IsName t x) : IsIdentifier x.name := by
  obtain ⟨hkind, rfl⟩ := hx
  exact h t List.mem_cons_self hkind

theorem Lexeme.IsLexeme.isIdentifier {text : String} {taken rest : List Glyph}
    (h : IsLexeme .ident text taken rest) : IsIdentifier text := by
  generalize hkind : Kind.ident = kind at h
  have hmarks : ∀ m ∈ Lexeme.marks, m.2 ≠ .ident := by decide
  have hwords : ∀ w ∈ Lexeme.words, w.2 ≠ .ident := by decide
  cases h with
  | mark rest hmark => exact absurd hkind.symm (hmarks _ hmark)
  | @word g gs _ _ hstart hws _ hword =>
      rcases hword with hword | ⟨-, hfree⟩
      · exact absurd hkind.symm (hwords _ hword)
      · refine ⟨⟨g.char, gs.map Glyph.char, ?_, hstart, ?_⟩, hfree⟩
        · rw [Glyph.text, String.toList_ofList, List.map_cons]
        · intro d hd
          obtain ⟨g', hg', rfl⟩ := List.mem_map.mp hd
          exact hws g' hg'
  | _ => exact Kind.noConfusion hkind

theorem Lexes.named {ending : Ending} {p : Source.Position} {gs : List Glyph} {ts : List Token}
    {stop : Except ScanFault Source.Position} (h : Lexes ending p gs ts stop) : Token.Named ts := by
  intro t ht hkind
  obtain ⟨-, taken, after, -, hlexeme, -⟩ := h.exists_lexeme ht
  exact Lexeme.IsLexeme.isIdentifier (hkind ▸ hlexeme)

/-- The parts of what tokens derive have identifiers for their names. -/
theorem Grammar.Derives.named {φ : Phrase} {ts : List Token} (h : Derives φ ts)
    (hts : Token.Named ts) : ∀ e ∈ φ.parts, e.Named := by
  -- An expression of several parts is named because these are, and each is a part of itself.
  induction h with
  | int | float | string | truth | falsity =>
      intro e he
      obtain rfl := List.mem_singleton.mp he
      trivial
  | var hx =>
      intro e he
      obtain rfl := List.mem_singleton.mp he
      exact hts.name hx
  | ref _ hx =>
      intro e he
      obtain rfl := List.mem_singleton.mp he
      exact hts.cons.name hx
  | paren _ _ _ ih => exact ih hts.cons.append.1
  | fn _ _ _ ih =>
      intro e he
      rcases List.mem_cons.mp he with rfl | he
      · trivial
      · exact ih hts.cons.append.2 e he
  | @call l es ls us o _ _ _ _ ihl ihes =>
      have hl := ihl hts.append.1
      have hes := ihes hts.append.2.cons
      intro e he
      rcases List.mem_cons.mp he with rfl | he
      · exact ⟨hl l l.mem_parts_self, Expr.allNamed_of_parts hes⟩
      · exact (List.mem_append.mp he).elim (hl e) (hes e)
  | @method l x es ls us d t o _ _ _ hx _ _ ihl ihes =>
      have hl := ihl hts.append.1
      have hes := ihes hts.append.2.cons.cons.cons
      intro e he
      rcases List.mem_cons.mp he with rfl | he
      · exact ⟨hl l l.mem_parts_self, hts.append.2.cons.name hx, Expr.allNamed_of_parts hes⟩
      · exact (List.mem_append.mp he).elim (hl e) (hes e)
  | @negate m d ts _ _ ih =>
      have hd := ih hts.cons
      intro e he
      rcases List.mem_cons.mp he with rfl | he
      · exact hd d d.mem_parts_self
      · exact hd e he
  | @binary op l r ls rs o _ _ _ _ ihl ihr =>
      have hl := ihl hts.append.1
      have hr := ihr hts.append.2.cons
      intro e he
      rcases List.mem_cons.mp he with rfl | he
      · exact ⟨hl l l.mem_parts_self, hr r r.mem_parts_self⟩
      · exact (List.mem_append.mp he).elim (hl e) (hr e)
  | @assign l v x ls rs o _ hx _ _ _ ihl ihv =>
      have hl := ihl hts.append.1 l l.mem_parts_self
      have hv := ihv hts.append.2.cons
      intro e he
      rcases List.mem_cons.mp he with rfl | he
      · refine ⟨?_, hv v v.mem_parts_self⟩
        rcases hx with rfl | ⟨_, rfl⟩ <;> exact hl
      · exact hv e he
  | up _ ih => exact ih hts
  | noArgs | noStmts | returnUnit | breakOut => exact fun e he => absurd he List.not_mem_nil
  | lastArg _ _ ih =>
      intro e he
      exact (List.mem_append.mp he).elim (ih hts.append.1 e) fun he => absurd he List.not_mem_nil
  | moreArgs _ _ _ ih ihs =>
      intro e he
      exact (List.mem_append.mp he).elim (ih hts.append.1 e) (ihs hts.append.2.cons e)
  | block _ _ _ ih => exact ih hts.cons.append.1
  | moreStmts _ _ ih ihs =>
      intro e he
      exact (List.mem_append.mp he).elim (ih hts.append.1 e) (ihs hts.append.2 e)
  | letIn _ _ _ _ _ ih => exact ih hts.cons.cons.cons
  | fnDecl _ _ _ _ _ ih => exact ih hts.cons.cons.append.2
  | ifThen _ _ _ _ ih ihs | whileDo _ _ _ _ ih ihs =>
      intro e he
      exact (List.mem_append.mp he).elim (ih hts.cons.append.1 e) (ihs hts.cons.append.2 e)
  | returnValue _ _ _ _ ih => exact ih hts.cons
  | expr _ _ ih => exact ih hts

/-- What occurs in a parsed program has identifiers for its names. -/
theorem Expr.Parsed.named {e : Expr} (h : e.Parsed) : e.Named := by
  obtain ⟨bytes, ending, P, hparse, he⟩ := h
  obtain ⟨ts, p, hscan, hderives⟩ := Program.exists_derives hparse
  have hlexes : Lexes ending .start (Glyph.ofBytes bytes) ts (.ok p) := lexes_iff.mpr hscan
  exact hderives.named hlexes.named e he

end HamScript
