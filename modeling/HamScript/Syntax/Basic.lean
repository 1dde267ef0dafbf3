/-
# Programs

A program is a list of statements; statements hold expressions, and an expression can be a function
with statements of its own.  Every node keeps the span it was read from.
-/
import HamScript.Token.Basic

namespace HamScript

open Source (Span)

/-- A name where it stands in a source. -/
structure Ident where
  name : String
  span : Span
  deriving Repr, DecidableEq

/-- The operators between two operands. -/
inductive BinaryOp where
  | equal
  | notEqual
  | add
  | subtract
  | multiply
  | divide
  deriving Repr, DecidableEq

namespace BinaryOp

/-- The kind of token that an operator is. -/
def kind : BinaryOp → Kind
  | equal => .equal
  | notEqual => .notEqual
  | add => .plus
  | subtract => .minus
  | multiply => .star
  | divide => .slash

/-- An operator in a source. -/
def symbol : BinaryOp → String
  | equal => "=="
  | notEqual => "!="
  | add => "+"
  | subtract => "-"
  | multiply => "*"
  | divide => "/"

/-- The operator that a kind of token is. -/
def ofKind? : Kind → Option BinaryOp
  | .equal => some equal
  | .notEqual => some notEqual
  | .plus => some add
  | .minus => some subtract
  | .star => some multiply
  | .slash => some divide
  | _ => none

/-- The text of the operator with a given token number; any other number shows its kind. -/
def symbolOfNumber (n : Int) : String :=
  match (Kind.ofNumber? n).bind ofKind? with
  | some op => op.symbol
  | none => Kind.nameOfNumber n

end BinaryOp

mutual

/-- Expressions. -/
inductive Expr where
  | int (value : Nat) (span : Span)
  | float (value : Float) (span : Span)
  | string (value : String) (span : Span)
  | bool (value : Bool) (span : Span)
  | var (name : Ident)
  /-- A pointer to the binding of a name, `&x`. -/
  | ref (target : Ident) (span : Span)
  | negate (operand : Expr) (span : Span)
  | binary (op : BinaryOp) (left right : Expr) (span : Span)
  | assign (target : Ident) (value : Expr) (span : Span)
  | call (callee : Expr) (args : List Expr) (span : Span)
  | method (receiver : Expr) (name : Ident) (args : List Expr) (span : Span)
  | fn (params : List Ident) (body : List Stmt) (span : Span)

/-- Statements. -/
inductive Stmt where
  | letIn (name : Ident) (value : Expr) (span : Span)
  | fnDecl (name : Ident) (params : List Ident) (body : List Stmt) (span : Span)
  | ifThen (condition : Expr) (body : List Stmt) (span : Span)
  | whileDo (condition : Expr) (body : List Stmt) (span : Span)
  | returnUnit (span : Span)
  | returnValue (value : Expr) (span : Span)
  | breakOut (span : Span)
  | expr (value : Expr) (span : Span)

end

/-- Statements between braces. -/
abbrev Block := List Stmt

/-- A whole source. -/
abbrev Program := List Stmt

namespace Expr

/-- Where an expression stands.  Parentheses around it are not counted. -/
def span : Expr → Span
  | int _ s | float _ s | string _ s | bool _ s => s
  | var x => x.span
  | ref _ s | negate _ s | binary _ _ _ s | assign _ _ s | call _ _ s | method _ _ _ s | fn _ _ s => s

/-- The name that an expression designates: a variable, or a pointer to one. -/
def target? : Expr → Option Ident
  | var x => some x
  | ref x _ => some x
  | _ => none

end Expr

/-- Where a statement stands. -/
def Stmt.span : Stmt → Span
  | letIn _ _ s | fnDecl _ _ _ s | ifThen _ _ s | whileDo _ _ s | returnUnit s | returnValue _ s
  | breakOut s | expr _ s => s

end HamScript
