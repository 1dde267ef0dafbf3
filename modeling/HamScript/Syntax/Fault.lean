/-
# Faults of a source text

What can be wrong with a source before it runs, and how it is reported.
-/
import HamScript.Token.Scan

namespace HamScript

open Source (Span)

namespace ScanFault

/-- Where the fault is; a failure of the supplier has no place. -/
def span? : ScanFault → Option Span
  | unrecognized _ s => some s
  | unterminated s => some s
  | broken _ => none

/-- The report of a fault, without its kind. -/
def message (file : String) : ScanFault → String
  | unrecognized c s => "unrecognized character " ++ Text.quotedChar c ++ ". " ++ s.text file
  | unterminated s => "unterminated string literal. " ++ s.text file
  | broken reason => reason

end ScanFault

/-- Why a source is no program. -/
inductive SyntaxFault where
  /-- The tokens end in a fault. -/
  | scan (fault : ScanFault)
  /-- A token of another kind was due. -/
  | expectedKind (expected : List Kind) (got : Token)
  /-- An expression was due, and the token begins none. -/
  | expectedExpression (got : Token)
  /-- Only a name can be assigned to. -/
  | invalidTarget (span : Span)
  deriving Repr, DecidableEq

namespace SyntaxFault

/-- Where the fault is. -/
def span? : SyntaxFault → Option Span
  | scan fault => fault.span?
  | expectedKind _ got => some got.span
  | expectedExpression got => some got.span
  | invalidTarget s => some s

/-- The kinds that were due, as a phrase. -/
def dueText : List Kind → String
  | [k] => "expected a " ++ k.name
  | ks => "expected one of " ++ String.intercalate ", " (ks.map Kind.name)

/-- The report of a fault, without its kind. -/
def message (file : String) : SyntaxFault → String
  | scan fault => fault.message file
  | expectedKind expected got =>
    "got a " ++ got.describe ++ ", " ++ dueText expected ++ ". " ++ got.span.text file
  | expectedExpression got =>
    "got a " ++ got.describe ++ ", expected an expression. " ++ got.span.text file
  | invalidTarget s => "only a variable can be assigned to. " ++ s.text file

/-- The report of a fault. -/
def describe (file : String) (fault : SyntaxFault) : String :=
  match fault with
  | scan (.broken reason) => reason
  | scan _ => "LexError: " ++ fault.message file
  | _ => "ParseError: " ++ fault.message file

end SyntaxFault

end HamScript
