/-
# Values

What expressions evaluate to.  A function carries its body and the scope it was made in; a pointer
names a binding, by its scope and its name, and not the value that is bound there.
-/
import HamScript.Number
import HamScript.Syntax.Basic

namespace HamScript

/-- Scopes are numbered in the order in which they are made. -/
abbrev ScopeId := Nat

/-- A reference to the binding of a name in a scope. -/
structure Pointer where
  scope : ScopeId
  name : String
  deriving Repr, DecidableEq

/-- A function with the scope it was made in. -/
structure Closure where
  /-- The declared name; a function literal has none. -/
  name? : Option String
  params : List String
  body : Block
  scope : ScopeId

namespace Closure

/-- The name that messages use for a function. -/
def shownName (f : Closure) : String :=
  f.name?.getD "<anonymous>"

end Closure

/-- The functions that every session begins with. -/
inductive Builtin where
  | println
  | print
  | format
  | wait
  | clear
  deriving Repr, DecidableEq

namespace Builtin

/-- All of them. -/
def all : List Builtin :=
  [println, print, format, wait, clear]

/-- The name a builtin is bound to. -/
def name : Builtin → String
  | println => "println"
  | print => "print"
  | format => "format"
  | wait => "wait"
  | clear => "clear"

/-- The builtin with a name. -/
def ofName? (s : String) : Option Builtin :=
  all.find? (·.name == s)

/-- How many arguments a builtin takes, if their number is fixed. -/
def arity? : Builtin → Option Nat
  | println | print | format => none
  | wait => some 1
  | clear => some 0

end Builtin

/-- A value of the language. -/
inductive Value where
  | number (n : Number)
  | string (s : String)
  | bool (b : Bool)
  | unit
  | function (f : Closure)
  | builtin (b : Builtin)
  | pointer (p : Pointer)

/-- What a binding holds: a value, or nothing. -/
abbrev Slot := Option Value

/-- The kinds of values. -/
inductive ValueKind where
  | number
  | string
  | boolean
  | unit
  | function
  | builtin
  | pointer
  deriving Repr, DecidableEq

namespace ValueKind

/-- Every kind; its place in the list is its number. -/
def all : List ValueKind :=
  [number, string, boolean, unit, function, builtin, pointer]

/-- The name that messages use for a kind. -/
def name : ValueKind → String
  | number => "number"
  | string => "string"
  | boolean => "boolean"
  | unit => "unit"
  | function => "function"
  | builtin => "builtin"
  | pointer => "pointer"

/-- The name of the kind with a given number; a number without a kind shows itself. -/
def nameOfNumber (n : Int) : String :=
  match if 0 ≤ n then all[n.toNat]? else none with
  | some k => k.name
  | none => s!"unknown_kind_{n}"

end ValueKind

namespace Value

/-- The kind of a value. -/
def kind : Value → ValueKind
  | number _ => .number
  | string _ => .string
  | bool _ => .boolean
  | unit => .unit
  | function _ => .function
  | builtin _ => .builtin
  | pointer _ => .pointer

/-- A pointer that leads nowhere, as text. -/
def brokenText (p : Pointer) : String :=
  "<broken pointer " ++ p.name ++ ">"

/-- A value as text, without following pointers. -/
def ownText : Value → String
  | number n => n.text
  | string s => s
  | bool b => if b then "true" else "false"
  | unit => "()"
  | function f =>
    match f.name? with
    | none => "<fn>"
    | some x => "<fn " ++ x ++ ">"
  | builtin b => "<builtin " ++ b.name ++ ">"
  | pointer p => brokenText p

/-- What a binding holds, as text: nothing looks like unit. -/
def slotText : Slot → String
  | some v => v.ownText
  | none => "()"

end Value

end HamScript
