/-
# Tokens

A token is a kind, the text it stands for and the span it takes in the source.  The end of a source
is a token too, of kind `eof`.
-/
import HamScript.Source.Position
import HamScript.Text.Quoted

namespace HamScript

/-- The kinds of tokens. -/
inductive Kind where
  | eof
  | illegal
  | leftParen
  | rightParen
  | leftBrace
  | rightBrace
  | comma
  | period
  | assign
  | equal
  | notEqual
  | plus
  | minus
  | star
  | slash
  | ampersand
  | int
  | float
  | ident
  | string
  | fnWord
  | letWord
  | ifWord
  | returnWord
  | whileWord
  | breakWord
  | trueWord
  | falseWord
  deriving Repr, DecidableEq, Inhabited

namespace Kind

/-- Every kind; its place in the list is its number. -/
def all : List Kind :=
  [eof, illegal, leftParen, rightParen, leftBrace, rightBrace, comma, period, assign, equal,
    notEqual, plus, minus, star, slash, ampersand, int, float, ident, string, fnWord, letWord,
    ifWord, returnWord, whileWord, breakWord, trueWord, falseWord]

/-- The name that messages use for a kind. -/
def name : Kind → String
  | eof => "EOF"
  | illegal => "ILLEGAL"
  | leftParen => "LPAREN"
  | rightParen => "RPAREN"
  | leftBrace => "LBRACKET"
  | rightBrace => "RBRACKET"
  | comma => "COMMA"
  | period => "PERIOD"
  | assign => "EQUALS"
  | equal => "EQ"
  | notEqual => "NOT_EQ"
  | plus => "PLUS"
  | minus => "MINUS"
  | star => "STAR"
  | slash => "SLASH"
  | ampersand => "AMPERSAND"
  | int => "INT"
  | float => "FLOAT"
  | ident => "IDENT"
  | string => "STRING"
  | fnWord => "FN"
  | letWord => "LET"
  | ifWord => "IF"
  | returnWord => "RETURN"
  | whileWord => "WHILE"
  | breakWord => "BREAK"
  | trueWord => "TRUE"
  | falseWord => "FALSE"

/-- The kind with a given number. -/
def ofNumber? (n : Int) : Option Kind :=
  if 0 ≤ n then all[n.toNat]? else none

/-- The name of the kind with a given number; a number without a kind shows itself. -/
def nameOfNumber (n : Int) : String :=
  match ofNumber? n with
  | some k => k.name
  | none => s!"TokenKind({n})"

/-- The reserved word that a text is. -/
def ofWord? : String → Option Kind
  | "fn" => some fnWord
  | "let" => some letWord
  | "if" => some ifWord
  | "return" => some returnWord
  | "while" => some whileWord
  | "break" => some breakWord
  | "true" => some trueWord
  | "false" => some falseWord
  | _ => none

/-- The kind of the token that one character is by itself, whatever follows it. -/
def ofMark? : Char → Option Kind
  | '(' => some leftParen
  | ')' => some rightParen
  | '\x7b' => some leftBrace
  | '\x7d' => some rightBrace
  | ',' => some comma
  | '.' => some period
  | '+' => some plus
  | '-' => some minus
  | '*' => some star
  | '&' => some ampersand
  | _ => none

end Kind

/-- A token of a source. -/
structure Token where
  kind : Kind
  text : String
  span : Source.Span
  deriving Repr, DecidableEq, Inhabited

namespace Token

/-- The end of a source at the position `p`. -/
def endAt (p : Source.Position) : Token :=
  ⟨.eof, "", .single p⟩

/-- How messages show a token of a given kind and text: its kind, with the text where the kind
leaves it open. -/
def showAs (kind : Kind) (text : String) : String :=
  match kind with
  | .ident | .int | .float => kind.name ++ "(" ++ text ++ ")"
  | .string => kind.name ++ "(" ++ Text.quoted text ++ ")"
  | _ => kind.name

/-- How messages show a token. -/
def describe (t : Token) : String :=
  showAs t.kind t.text

end Token

end HamScript
