/-
# Reading programs from tokens

A parser reads tokens from the front of its input.  Expressions are read by binding strength: an
operator takes what stands on its left as long as it binds more tightly than the operator before.
Line breaks matter in two places.  What continues an expression must stand on the line where the
expression so far ends, and `return` has a value only if one follows on its line.

Expressions and blocks contain each other, so their parsers are tied together by a bound on the
nesting; the loops over commas and statements have a bound of their own.  Every turn takes a token,
so the number of tokens bounds them all, and `HamScript.Syntax.Total` shows that it is never
reached.
-/
import HamScript.Decimal.Reading
import HamScript.Syntax.Basic
import HamScript.Syntax.Fault

namespace HamScript

open Source (Position Span)

namespace Parsing

/-! ## Parsers -/

/-- What a parser reads from. -/
structure Input where
  tokens : List Token
  /-- How the tokens come to an end. -/
  stop : Except ScanFault Position
  /-- Where the token that was taken last ends. -/
  last : Position

/-- What a parser answers. -/
inductive Reply (α : Type) where
  | done (value : α) (rest : Input)
  | fault (fault : SyntaxFault)
  /-- The bound on the nesting or on a loop was too small. -/
  | exhausted

end Parsing

/-- A parser for values of a type. -/
def Parser (α : Type) : Type :=
  Parsing.Input → Parsing.Reply α

namespace Parser

open Parsing

/-- Reads nothing. -/
@[inline] protected def pure {α : Type} (a : α) : Parser α :=
  fun s => .done a s

/-- Reads with `p` and goes on with what it gives. -/
@[inline] protected def bind {α β : Type} (p : Parser α) (f : α → Parser β) : Parser β := fun s =>
  match p s with
  | .done a s' => f a s'
  | .fault e => .fault e
  | .exhausted => .exhausted

instance : Monad Parser where
  pure := Parser.pure
  bind := Parser.bind

/-- Stops with a fault. -/
def raise {α : Type} (e : SyntaxFault) : Parser α :=
  fun _ => .fault e

/-- Stops because a bound was too small. -/
def exhausted {α : Type} : Parser α :=
  fun _ => .exhausted

/-- Looks at the next token.  After the last one there is `eof`, or the fault that ended them. -/
def peek : Parser Token := fun s =>
  match s.tokens with
  | t :: _ => .done t s
  | [] =>
    match s.stop with
    | .ok p => .done (.endAt p) s
    | .error e => .fault (.scan e)

/-- Takes the next token. -/
def next : Parser Token := fun s =>
  match s.tokens with
  | t :: ts => .done t { s with tokens := ts, last := t.span.last }
  | [] =>
    match s.stop with
    | .ok p => .done (.endAt p) { s with last := p }
    | .error e => .fault (.scan e)

/-- Takes the next token, which must be of one of the kinds. -/
def expect (kinds : List Kind) : Parser Token := do
  let tok ← next
  if kinds.contains tok.kind then return tok else raise (.expectedKind kinds tok)

/-- Is the next token of the kind? -/
def peekIs (kind : Kind) : Parser Bool := do
  let tok ← peek
  return tok.kind == kind

/-- Does the next token begin on the line where the one taken last ends? -/
def onSameLine : Parser Bool := fun s =>
  match peek s with
  | .done tok s' => .done (tok.span.first.line == s.last.line) s'
  | .fault e => .fault e
  | .exhausted => .exhausted

/-- The span from `first` to the end of the token taken last. -/
def spanFrom (first : Position) : Parser Span := fun s =>
  .done ⟨first, s.last⟩ s

/-- A name. -/
def ident : Parser Ident := do
  let tok ← expect [.ident]
  return ⟨tok.text, tok.span⟩

/-! ## Lists and blocks -/

/-- Items between commas up to a closing parenthesis, which is taken; a comma may follow the last
item. -/
def commaList {α : Type} (item : Parser α) : (bound : Nat) → Parser (List α)
  | 0 => exhausted
  | bound + 1 => do
    if ← peekIs .rightParen then
      let _ ← expect [.rightParen]
      return []
    else
      let a ← item
      if ← peekIs .rightParen then
        let _ ← expect [.rightParen]
        return [a]
      else
        let _ ← expect [.comma, .rightParen]
        let rest ← commaList item bound
        return a :: rest

/-- The parameters of a function. -/
def params (bound : Nat) : Parser (List Ident) := do
  let _ ← expect [.leftParen]
  commaList ident bound

/-- Statements up to a closing brace, which is taken. -/
def stmtsToBrace (stmt : Parser Stmt) : (bound : Nat) → Parser Block
  | 0 => exhausted
  | bound + 1 => do
    let tok ← peek
    if tok.kind = .rightBrace then
      let _ ← next
      return []
    else if tok.kind = .eof then
      raise (.expectedKind [.rightBrace] tok)
    else
      let s ← stmt
      let rest ← stmtsToBrace stmt bound
      return s :: rest

/-- Statements between braces. -/
def blockOf (stmt : Parser Stmt) (bound : Nat) : Parser Block := do
  let _ ← expect [.leftBrace]
  stmtsToBrace stmt bound

/-- Statements up to the end of the source. -/
def stmtsToEnd (stmt : Parser Stmt) : (bound : Nat) → Parser Program
  | 0 => exhausted
  | bound + 1 => do
    let tok ← peek
    if tok.kind = .eof then
      return []
    else
      let s ← stmt
      let rest ← stmtsToEnd stmt bound
      return s :: rest

/-! ## Binding strength -/

/-- What may continue an expression. -/
inductive Continuation where
  | assign
  | operator (op : BinaryOp)
  | call
  | method

/-- The continuation that begins with a kind of token. -/
def Continuation.ofKind? : Kind → Option Continuation
  | .assign => some assign
  | .leftParen => some call
  | .period => some method
  | kind => (BinaryOp.ofKind? kind).map operator

/-- The strength below which everything continues an expression. -/
def loosest : Nat := 0

/-- How tightly an operator binds. -/
def opStrength : BinaryOp → Nat
  | .equal | .notEqual => 2
  | .add | .subtract => 3
  | .multiply | .divide => 4

/-- How tightly a minus sign in front binds. -/
def negateStrength : Nat := 5

/-- How tightly a continuation binds. -/
def Continuation.strength : Continuation → Nat
  | assign => 1
  | operator op => opStrength op
  | call | method => 6

/-! ## Expressions

The parsers here get those for smaller expressions and for blocks as arguments. -/

/-- The value of a literal, if it has one. -/
def literal {α : Type} (tok : Token) (value : Option α) (make : α → Span → Expr) : Parser Expr :=
  match value with
  | some v => return make v tok.span
  | none => raise (.expectedExpression tok)

/-- A function after the word `fn`, which stands at `first`. -/
def fnRest (block : Parser Block) (bound : Nat) (first : Position) : Parser Expr := do
  let ps ← params bound
  let body ← block
  let span ← spanFrom first
  return .fn ps body span

/-- An expression up to its first continuation. -/
def primary (expr : Nat → Parser Expr) (block : Parser Block) (bound : Nat) : Parser Expr := do
  let tok ← next
  let first := tok.span.first
  match tok.kind with
  | .int => literal tok (Decimal.natural? tok.text.toList) .int
  | .float => literal tok (Decimal.literal? tok.text.toList) .float
  | .string => return .string tok.text tok.span
  | .trueWord => return .bool true tok.span
  | .falseWord => return .bool false tok.span
  | .ident => return .var ⟨tok.text, tok.span⟩
  | .leftParen =>
    let inner ← expr loosest
    let _ ← expect [.rightParen]
    return inner
  | .minus =>
    let operand ← expr negateStrength
    let span ← spanFrom first
    return .negate operand span
  | .fnWord => fnRest block bound first
  | .ampersand =>
    let name ← ident
    let span ← spanFrom first
    return .ref name span
  | _ => raise (.expectedExpression tok)

/-- The continuation of `left` whose first token has just been taken.  Assignment groups to the
right, operators to the left. -/
def continuation (expr : Nat → Parser Expr) (bound : Nat) (left : Expr) :
    Continuation → Parser Expr
  | .assign =>
    match left.target? with
    | none => raise (.invalidTarget left.span)
    | some target => do
      let value ← expr loosest
      let span ← spanFrom left.span.first
      return .assign target value span
  | .operator op => do
    let right ← expr (opStrength op)
    let span ← spanFrom left.span.first
    return .binary op left right span
  | .call => do
    let args ← commaList (expr loosest) bound
    let span ← spanFrom left.span.first
    return .call left args span
  | .method => do
    let name ← ident
    let _ ← expect [.leftParen]
    let args ← commaList (expr loosest) bound
    let span ← spanFrom left.span.first
    return .method left name args span

/-- Takes all continuations of `left` that bind more tightly than `strength` and begin on the line
where the expression so far ends. -/
def continueFrom (expr : Nat → Parser Expr) (strength : Nat) :
    (bound : Nat) → Expr → Parser Expr
  | 0, _ => exhausted
  | bound + 1, left => do
    let tok ← peek
    match Continuation.ofKind? tok.kind with
    | none => return left
    | some c =>
      if c.strength ≤ strength then return left
      else if ← onSameLine then
        let _ ← next
        let longer ← continuation expr bound left c
        continueFrom expr strength bound longer
      else return left

/-- An expression whose continuations bind more tightly than `strength`. -/
def exprOf (expr : Nat → Parser Expr) (block : Parser Block) (bound strength : Nat) :
    Parser Expr := do
  let left ← primary expr block bound
  continueFrom expr strength bound left

/-! ## Statements -/

/-- A function declaration, or an expression that begins with a function. -/
def fnStmt (expr : Nat → Parser Expr) (block : Parser Block) (bound : Nat) : Parser Stmt := do
  let tok ← next
  let first := tok.span.first
  if ← peekIs .ident then
    let name ← ident
    let ps ← params bound
    let body ← block
    let span ← spanFrom first
    return .fnDecl name ps body span
  else
    let left ← fnRest block bound first
    let value ← continueFrom expr loosest bound left
    let span ← spanFrom first
    return .expr value span

/-- The rest of a `return` that stands at `first`. -/
def returnRest (expr : Nat → Parser Expr) (first : Position) : Parser Stmt := do
  let sameLine ← onSameLine
  let tok ← peek
  if sameLine && tok.kind != .rightBrace && tok.kind != .eof then
    let value ← expr loosest
    let span ← spanFrom first
    return .returnValue value span
  else
    let span ← spanFrom first
    return .returnUnit span

/-- A condition and its block. -/
def guarded (expr : Nat → Parser Expr) (block : Parser Block) (first : Position)
    (make : Expr → Block → Span → Stmt) : Parser Stmt := do
  let condition ← expr loosest
  let body ← block
  let span ← spanFrom first
  return make condition body span

/-- A statement. -/
def stmtOf (expr : Nat → Parser Expr) (block : Parser Block) (bound : Nat) : Parser Stmt := do
  let tok ← peek
  let first := tok.span.first
  match tok.kind with
  | .letWord =>
    let _ ← next
    let name ← ident
    let _ ← expect [.assign]
    let value ← expr loosest
    let span ← spanFrom first
    return .letIn name value span
  | .fnWord => fnStmt expr block bound
  | .ifWord =>
    let _ ← next
    guarded expr block first .ifThen
  | .whileWord =>
    let _ ← next
    guarded expr block first .whileDo
  | .returnWord =>
    let _ ← next
    returnRest expr first
  | .breakWord =>
    let _ ← next
    return .breakOut tok.span
  | _ =>
    let value ← expr loosest
    let span ← spanFrom first
    return .expr value span

/-! ## Tying the knot -/

mutual

/-- An expression, nested at most `bound` deep. -/
def expr : (bound : Nat) → (strength : Nat) → Parser Expr
  | 0, _ => exhausted
  | bound + 1, strength => exprOf (expr bound) (block bound) bound strength

/-- A block, nested at most `bound` deep. -/
def block : (bound : Nat) → Parser Block
  | 0 => exhausted
  | bound + 1 => blockOf (stmtOf (expr bound) (block bound) bound) bound

end

/-- A whole source. -/
def program (bound : Nat) : Parser Program :=
  stmtsToEnd (stmtOf (expr bound) (block bound) bound) bound

end Parser

/-- Where a parser begins. -/
def Scan.input (s : Scan) : Parsing.Input :=
  ⟨s.tokens, s.stop, ⟨0, 0, 0⟩⟩

/-- A bound that every parse of the tokens stays below. -/
def Scan.bound (s : Scan) : Nat :=
  s.tokens.length + 1

end HamScript
