/-
# Builtin functions

A builtin gets what its arguments hold, after pointers have been followed, and the span of its call.
-/
import HamScript.Decimal.Word
import HamScript.Eval.Outcome

namespace HamScript

open Source (Span)

namespace Template

/-- The parts of a template around its placeholders `{}`, which are found from left to right. -/
def split : List Char → List (List Char)
  | [] => [[]]
  | '\x7b' :: '\x7d' :: cs => [] :: split cs
  | c :: cs =>
    match split cs with
    | part :: parts => (c :: part) :: parts
    | [] => [[c]]

/-- Puts the texts between the parts; a text that looks like a placeholder is not replaced again. -/
def fill : List (List Char) → List String → String
  | part :: parts, text :: texts => String.ofList part ++ text ++ fill parts texts
  | part :: _, [] => String.ofList part
  | [], _ => ""

end Template

namespace Builtin

/-- The largest number of milliseconds. -/
def maxWait : Int :=
  Decimal.maxWord

/-- What moves the cursor home on an empty screen. -/
def clearScreen : String :=
  "\x1b[2J\x1b[1;1H"

/-- The texts of the arguments. -/
def texts (args : List Slot) : Eval (List String) :=
  Eval.read (fun h => args.map h.text)

/-- Prints a text. -/
def say (text : String) : Eval Value := do
  Eval.print text
  return .unit

/-- Fills the values into a template. -/
def formatTemplate (template : String) (values : List Slot) (span : Span) : Eval Value := do
  let parts := Template.split template.toList
  let shown ← texts values
  if parts.length - 1 = shown.length then return .string (Template.fill parts shown)
  else Eval.raise (.placeholderCount (parts.length - 1) shown.length) span

/-- `format` replaces each placeholder of a template by the next value. -/
def runFormat (args : List Slot) (span : Span) : Eval Value :=
  match args with
  | [] => Eval.raise .missingTemplate span
  | some (.string template) :: values => formatTemplate template values span
  | some v :: _ => Eval.raise (.templateKind v.kind) span
  | none :: _ => Eval.misuse .emptySlot

/-- `wait` takes a whole number of milliseconds that fits 64 bits.  Time is no part of the world, so
waiting changes nothing. -/
def runWait (args : List Slot) (span : Span) : Eval Value :=
  let refuse (slot : Slot) : Eval Value := do
    Eval.raise (.waitArgument (← Eval.read (·.text slot))) span
  match args with
  | [] => Eval.misuse (.missingArgument 0 0)
  | some (.number (.int n)) :: _ =>
    if 0 ≤ n ∧ n ≤ maxWait then return .unit else refuse (some (.number (.int n)))
  | slot :: _ => refuse slot

/-- Runs a builtin. -/
def run (b : Builtin) (args : List Slot) (span : Span) : Eval Value :=
  match b with
  | println => do say (String.join (← texts args) ++ "\n")
  | print => do say (String.intercalate " " (← texts args))
  | format => runFormat args span
  | wait => runWait args span
  | clear => say clearScreen

end Builtin

end HamScript
