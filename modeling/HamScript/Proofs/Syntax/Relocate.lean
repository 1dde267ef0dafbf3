/-
# Moving positions

Tokens, trees and faults carry positions.  `relocate f` moves all of them by `f` and leaves
everything else as it is.  Trees that become equal when relocated are equal but for their
positions.
-/
import HamScript.Syntax.Basic
import HamScript.Syntax.Fault

namespace HamScript

open Source (Position Span)

/-! ## Tokens and faults -/

def Source.Span.relocate (f : Position → Position) (s : Span) : Span :=
  ⟨f s.first, f s.last⟩

def Token.relocate (f : Position → Position) (t : Token) : Token :=
  { t with span := t.span.relocate f }

def Ident.relocate (f : Position → Position) (x : Ident) : Ident :=
  { x with span := x.span.relocate f }

def ScanFault.relocate (f : Position → Position) : ScanFault → ScanFault
  | unrecognized c s => unrecognized c (s.relocate f)
  | unterminated s => unterminated (s.relocate f)
  | broken reason => broken reason

def SyntaxFault.relocate (f : Position → Position) : SyntaxFault → SyntaxFault
  | scan fault => scan (fault.relocate f)
  | expectedKind expected got => expectedKind expected (got.relocate f)
  | expectedExpression got => expectedExpression (got.relocate f)
  | invalidTarget s => invalidTarget (s.relocate f)

/-! ## Trees -/

mutual

def Expr.relocate (f : Position → Position) : Expr → Expr
  | .int value s => .int value (s.relocate f)
  | .float value s => .float value (s.relocate f)
  | .string value s => .string value (s.relocate f)
  | .bool value s => .bool value (s.relocate f)
  | .var x => .var (x.relocate f)
  | .ref x s => .ref (x.relocate f) (s.relocate f)
  | .negate operand s => .negate (operand.relocate f) (s.relocate f)
  | .binary op left right s => .binary op (left.relocate f) (right.relocate f) (s.relocate f)
  | .assign x value s => .assign (x.relocate f) (value.relocate f) (s.relocate f)
  | .call callee args s => .call (callee.relocate f) (Expr.relocateAll f args) (s.relocate f)
  | .method receiver x args s =>
    .method (receiver.relocate f) (x.relocate f) (Expr.relocateAll f args) (s.relocate f)
  | .fn params body s =>
    .fn (params.map (Ident.relocate f)) (Stmt.relocateAll f body) (s.relocate f)

def Expr.relocateAll (f : Position → Position) : List Expr → List Expr
  | [] => []
  | e :: es => e.relocate f :: Expr.relocateAll f es

def Stmt.relocate (f : Position → Position) : Stmt → Stmt
  | .letIn x value s => .letIn (x.relocate f) (value.relocate f) (s.relocate f)
  | .fnDecl x params body s =>
    .fnDecl (x.relocate f) (params.map (Ident.relocate f)) (Stmt.relocateAll f body) (s.relocate f)
  | .ifThen condition body s =>
    .ifThen (condition.relocate f) (Stmt.relocateAll f body) (s.relocate f)
  | .whileDo condition body s =>
    .whileDo (condition.relocate f) (Stmt.relocateAll f body) (s.relocate f)
  | .returnUnit s => .returnUnit (s.relocate f)
  | .returnValue value s => .returnValue (value.relocate f) (s.relocate f)
  | .breakOut s => .breakOut (s.relocate f)
  | .expr value s => .expr (value.relocate f) (s.relocate f)

def Stmt.relocateAll (f : Position → Position) : List Stmt → List Stmt
  | [] => []
  | s :: ss => s.relocate f :: Stmt.relocateAll f ss

end

/-- The statements of a program, moved. -/
def Program.relocate (f : Position → Position) (P : Program) : Program :=
  Stmt.relocateAll f P

section
variable (f : Position → Position)

theorem Expr.span_relocate (e : Expr) : (e.relocate f).span = e.span.relocate f := by
  cases e <;> rfl

theorem Expr.target?_relocate (e : Expr) :
    (e.relocate f).target? = e.target?.map (Ident.relocate f) := by
  cases e <;> rfl

end

/-! ## Moving nothing -/

theorem ScanFault.relocate_id (e : ScanFault) : e.relocate id = e := by
  cases e <;> rfl

theorem SyntaxFault.relocate_id (e : SyntaxFault) : e.relocate id = e := by
  cases e with
  | scan e => exact congrArg scan e.relocate_id
  | expectedKind | expectedExpression | invalidTarget => rfl

theorem Ident.map_relocate_id (xs : List Ident) : xs.map (Ident.relocate id) = xs :=
  List.map_id xs

mutual

theorem Expr.relocate_id : (e : Expr) → e.relocate id = e
  | .int .. | .float .. | .string .. | .bool .. | .var .. | .ref .. => rfl
  | .negate operand _ => congrArg (Expr.negate · _) operand.relocate_id
  | .binary op left right _ => by
      rw [Expr.relocate, left.relocate_id, right.relocate_id]
      rfl
  | .assign x value _ => by
      rw [Expr.relocate, value.relocate_id]
      rfl
  | .call callee args _ => by
      rw [Expr.relocate, callee.relocate_id, Expr.relocateAll_id args]
      rfl
  | .method receiver x args _ => by
      rw [Expr.relocate, receiver.relocate_id, Expr.relocateAll_id args]
      rfl
  | .fn params body _ => by
      rw [Expr.relocate, Ident.map_relocate_id, Stmt.relocateAll_id body]
      rfl

theorem Expr.relocateAll_id : (es : List Expr) → Expr.relocateAll id es = es
  | [] => rfl
  | e :: es => by rw [Expr.relocateAll, e.relocate_id, Expr.relocateAll_id es]

theorem Stmt.relocate_id : (s : Stmt) → s.relocate id = s
  | .returnUnit _ | .breakOut _ => rfl
  | .letIn x value _ | .returnValue value _ | .expr value _ => by
      rw [Stmt.relocate, value.relocate_id]
      rfl
  | .fnDecl x params body _ => by
      rw [Stmt.relocate, Ident.map_relocate_id, Stmt.relocateAll_id body]
      rfl
  | .ifThen condition body _ | .whileDo condition body _ => by
      rw [Stmt.relocate, condition.relocate_id, Stmt.relocateAll_id body]
      rfl

theorem Stmt.relocateAll_id : (ss : List Stmt) → Stmt.relocateAll id ss = ss
  | [] => rfl
  | s :: ss => by rw [Stmt.relocateAll, s.relocate_id, Stmt.relocateAll_id ss]

end

end HamScript
