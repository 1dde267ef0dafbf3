/-
# Faults of a running program

What can go wrong while a program runs.  A cause says what happened; its class groups causes and its
text is what a report says about it.
-/
import HamScript.Value

namespace HamScript

open Source (Span)

/-- The classes of causes. -/
inductive FaultClass where
  | undefinedName
  | typeMismatch
  | wrongArity
  | unsupportedMethod
  | divisionByZero
  | stackOverflow
  | formatMismatch
  | breakOutsideLoop
  | brokenPointer
  deriving Repr, DecidableEq

namespace FaultClass

/-- Every class; its place in the list is its number. -/
def all : List FaultClass :=
  [undefinedName, typeMismatch, wrongArity, unsupportedMethod, divisionByZero, stackOverflow,
    formatMismatch, breakOutsideLoop, brokenPointer]

/-- A class in a report. -/
def text : FaultClass → String
  | undefinedName => "undefined name"
  | typeMismatch => "type mismatch"
  | wrongArity => "wrong arity"
  | unsupportedMethod => "unsupported method"
  | divisionByZero => "division by zero"
  | stackOverflow => "stack overflow"
  | formatMismatch => "format mismatch"
  | breakOutsideLoop => "break outside loop"
  | brokenPointer => "broken pointer"

/-- The text of the class with a given number; a number without a class shows itself. -/
def textOfNumber (n : Int) : String :=
  match if 0 ≤ n then all[n.toNat]? else none with
  | some c => c.text
  | none => s!"Class({n})"

end FaultClass

/-- The statements that have a condition. -/
inductive Guard where
  | ifThen
  | whileDo
  deriving Repr, DecidableEq

/-- The word a guarded statement begins with. -/
def Guard.word : Guard → String
  | ifThen => "if"
  | whileDo => "while"

/-- The methods of values. -/
inductive Method where
  | sum
  | mutSum
  | len
  deriving Repr, DecidableEq

namespace Method

/-- The name of a method. -/
def name : Method → String
  | sum => "sum"
  | mutSum => "mut_sum"
  | len => "len"

/-- How many arguments a method takes. -/
def arity : Method → Nat
  | sum | mutSum => 1
  | len => 0

end Method

/-- Why a program stops. -/
inductive Cause where
  /-- A name that is read is not bound. -/
  | undefinedName (name : String)
  /-- A name that is assigned to is not bound. -/
  | undefinedTarget (name : String)
  /-- A pointer that is read leads in a circle. -/
  | circularPointer (name : String)
  /-- The pointer held by a name that is assigned to leads in a circle. -/
  | circularTarget (name : String)
  | conditionKind (guard : Guard) (kind : ValueKind)
  | negatedKind (kind : ValueKind)
  | operandKinds (op : BinaryOp) (left right : ValueKind)
  | notCallable (kind : ValueKind)
  | builtinArity (builtin : Builtin) (expected got : Nat)
  | functionArity (name : String) (expected got : Nat)
  | methodArity (method : Method) (expected got : Nat)
  | missingTemplate
  | templateKind (kind : ValueKind)
  | placeholderCount (placeholders values : Nat)
  | waitArgument (text : String)
  | noMethod (kind : ValueKind) (name : String)
  | argumentKind (method : Method) (kind : ValueKind)
  | divisionByZero
  | tooManyCalls (limit : Nat) (name : String)
  | strayBreak
  deriving Repr, DecidableEq

namespace Cause

/-- The class of a cause. -/
def faultClass : Cause → FaultClass
  | undefinedName _ | undefinedTarget _ => .undefinedName
  | circularPointer _ | circularTarget _ => .brokenPointer
  | conditionKind _ _ | negatedKind _ | operandKinds _ _ _ | notCallable _ | templateKind _
  | waitArgument _ | argumentKind _ _ => .typeMismatch
  | builtinArity _ _ _ | functionArity _ _ _ | methodArity _ _ _ | missingTemplate => .wrongArity
  | noMethod _ _ => .unsupportedMethod
  | divisionByZero => .divisionByZero
  | tooManyCalls _ _ => .stackOverflow
  | placeholderCount _ _ => .formatMismatch
  | strayBreak => .breakOutsideLoop

/-- How many arguments were due and how many came. -/
def countText (expected got : Nat) : String :=
  s!"expects {expected} arguments, got {got}"

/-- What a report says about a cause. -/
def text : Cause → String
  | undefinedName x => "undefined name '" ++ x ++ "'"
  | undefinedTarget x => "cannot assign to undefined name '" ++ x ++ "'"
  | circularPointer x => "pointer to '" ++ x ++ "' is part of a cycle"
  | circularTarget x => "pointer in '" ++ x ++ "' is part of a cycle"
  | conditionKind g k => g.word ++ " condition must be a boolean, got " ++ k.name
  | negatedKind k => "cannot negate a " ++ k.name
  | operandKinds op l r =>
    "operator " ++ op.symbol ++ " is not defined for " ++ l.name ++ " and " ++ r.name
  | notCallable k => "cannot call a value of kind " ++ k.name
  | builtinArity b expected got => "builtin '" ++ b.name ++ "' " ++ countText expected got
  | functionArity f expected got => "function '" ++ f ++ "' " ++ countText expected got
  | methodArity m expected got => "method '" ++ m.name ++ "' " ++ countText expected got
  | missingTemplate => "builtin 'format' expects at least 1 argument, got 0"
  | templateKind k => "format template must be a string, got " ++ k.name
  | placeholderCount p v => s!"template has {p} placeholders but {v} arguments were given"
  | waitArgument t => "wait expects a non-negative integer number of milliseconds, got " ++ t
  | noMethod k m => k.name ++ " has no method '" ++ m ++ "'"
  | argumentKind m k => m.name ++ " expects a number, got " ++ k.name
  | divisionByZero => "division by zero"
  | tooManyCalls limit f => s!"maximum call depth of {limit} exceeded calling '" ++ f ++ "'"
  | strayBreak => "break used outside of a while loop"

end Cause

/-- A cause and where it arose. -/
structure RuntimeFault where
  cause : Cause
  span : Span
  deriving Repr, DecidableEq

namespace RuntimeFault

/-- A report of a class, a text and a place. -/
def messageOf (file classText text : String) (span : Span) : String :=
  classText ++ ": " ++ text ++ ". " ++ span.text file

/-- The report of a fault, without its kind. -/
def message (file : String) (f : RuntimeFault) : String :=
  messageOf file f.cause.faultClass.text f.cause.text f.span

/-- The report of a fault. -/
def describe (file : String) (f : RuntimeFault) : String :=
  "RuntimeError: " ++ f.message file

end RuntimeFault

end HamScript
