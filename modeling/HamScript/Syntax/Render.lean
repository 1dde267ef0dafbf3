/-
# Expressions as text

Expressions are written with every operator in parentheses, so that the text shows the tree.  The
body of a function is left out.
-/
import HamScript.Number
import HamScript.Syntax.Basic

namespace HamScript

/-- Names between commas. -/
def Ident.listText (names : List Ident) : String :=
  String.intercalate ", " (names.map Ident.name)

mutual

/-- An expression as text. -/
def Expr.render : Expr → String
  | .int value _ => toString value
  | .float value _ => doubleLayout.text value
  | .string value _ => Text.quoted value
  | .bool value _ => if value then "true" else "false"
  | .var x => x.name
  | .ref x _ => "&" ++ x.name
  | .negate operand _ => "-" ++ operand.render
  | .binary op left right _ => "(" ++ left.render ++ " " ++ op.symbol ++ " " ++ right.render ++ ")"
  | .assign x value _ => x.name ++ " = " ++ value.render
  | .call callee args _ =>
    callee.render ++ "(" ++ String.intercalate ", " (Expr.renderAll args) ++ ")"
  | .method receiver name args _ =>
    receiver.render ++ "." ++ name.name ++ "(" ++ String.intercalate ", " (Expr.renderAll args) ++ ")"
  | .fn params _ _ => "fn(" ++ Ident.listText params ++ ") \x7b ... \x7d"

/-- Expressions as texts. -/
def Expr.renderAll : List Expr → List String
  | [] => []
  | e :: es => e.render :: Expr.renderAll es

end

/-- The heading of a function declaration. -/
def Stmt.fnHeading (name : Ident) (params : List Ident) : String :=
  "fn " ++ name.name ++ "(" ++ Ident.listText params ++ ")"

/-! ## Programs in outline -/

mutual

/-- The lines of a statement; the statements inside it are indented. -/
def Stmt.outline : Stmt → List String
  | .letIn x value _ => ["let " ++ x.name ++ " = " ++ value.render]
  | .fnDecl name params body _ => Stmt.fnHeading name params :: Stmt.outlineInner body
  | .ifThen condition body _ => ("if " ++ condition.render) :: Stmt.outlineInner body
  | .whileDo condition body _ => ("while " ++ condition.render) :: Stmt.outlineInner body
  | .returnUnit _ => ["return"]
  | .returnValue value _ => ["return " ++ value.render]
  | .breakOut _ => ["break"]
  | .expr value _ => [value.render]

/-- The indented lines of statements. -/
def Stmt.outlineInner : List Stmt → List String
  | [] => []
  | s :: ss => s.outline.map ("  " ++ ·) ++ Stmt.outlineInner ss

end

/-- The lines of a program. -/
def Program.outline (p : Program) : String :=
  String.join ((p.flatMap Stmt.outline).map (· ++ "\n"))

end HamScript
