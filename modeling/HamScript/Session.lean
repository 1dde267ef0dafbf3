/-
# Sessions

A session runs sources one after the other against one global scope.  All that is kept from one
source to the next is the heap.
-/
import HamScript.Eval.Stmt
import HamScript.Syntax.Total

namespace HamScript

open Source (Glyph Span)

/-! ## Settings -/

/-- What a session is told at its beginning. -/
structure Settings where
  /-- The name of the source in reports. -/
  file : String
  /-- How many calls may be active at once. -/
  maxDepth : Nat
  deriving Repr, DecidableEq

namespace Settings

/-- The number of active calls when none is asked for. -/
def defaultDepth : Nat := 1000

/-- The largest number of active calls. -/
def depthLimit : Nat := 20000

/-- Settings from a request: a nameless source is called `<input>`, a depth that is not positive
stands for the default and one that is too large for the limit. -/
def ofRequest (file : String) (depth : Int) : Settings where
  file := if file = "" then "<input>" else file
  maxDepth := if depth ≤ 0 then defaultDepth else min depth.toNat depthLimit

end Settings

/-! ## Steps -/

/-- What is wrong with a source or with its run. -/
inductive Fault where
  | text (fault : SyntaxFault)
  | runtime (fault : RuntimeFault)
  deriving Repr, DecidableEq

/-- The report of a fault. -/
def Fault.describe (file : String) : Fault → String
  | text f => f.describe file
  | runtime f => f.describe file

/-- How a step of a session ends. -/
inductive StepResult where
  | value (v : Value)
  | fault (f : Fault)
  | misuse (m : Misuse)
  | exhausted

/-- A session between two steps. -/
structure Session where
  settings : Settings
  heap : Heap

/-- What a step gives. -/
structure Step where
  result : StepResult
  /-- What the step has printed. -/
  output : String
  /-- The calls that were recorded, in order. -/
  calls : List CallNote
  session : Session

namespace Session

/-- The number of the global scope. -/
def globals : ScopeId := 0

/-- A heap with the global scope, in which the builtins are bound. -/
def initialHeap : Heap :=
  Builtin.all.foldl (fun h b => h.define globals b.name (some (.builtin b)))
    (Heap.empty.newScope none).2

/-- A new session. -/
def start (settings : Settings) : Session :=
  ⟨settings, initialHeap⟩

/-- The bounds that programs run under in a session. -/
def limits (s : Session) (maxTurns : Nat) (traced : Bool) : Limits :=
  ⟨s.settings.maxDepth, maxTurns, traced⟩

/-- The step that an outcome makes. -/
def conclude (s : Session) : Outcome Value → Step
  | .value v w => ⟨.value v, w.output, w.calls.reverse, { s with heap := w.heap }⟩
  | .fault f w => ⟨.fault (.runtime f), w.output, w.calls.reverse, { s with heap := w.heap }⟩
  | .misuse m => ⟨.misuse m, "", [], s⟩
  | .exhausted => ⟨.exhausted, "", [], s⟩

/-- Runs a program. -/
def run (s : Session) (maxTurns : Nat) (traced : Bool) (p : Program) : Step :=
  s.conclude (Eval.program (s.limits maxTurns traced) globals p ⟨s.heap, "", []⟩)

/-- Runs a source.  One that is no program changes nothing. -/
def evaluate (s : Session) (maxTurns : Nat) (source : List Glyph) : Step :=
  match Program.ofGlyphs source .finished with
  | .ok p => s.run maxTurns false p
  | .error f => ⟨.fault (.text f), "", [], s⟩

/-- The global bindings, sorted by name, without the builtins under their own names. -/
def ownGlobals (s : Session) : List (String × Slot) :=
  (s.heap.sortedNames globals).filterMap fun name =>
    match s.heap.find? globals name with
    | some (some (.builtin b)) => if b.name = name then none else some (name, some (.builtin b))
    | some slot => some (name, slot)
    | none => none

end Session

end HamScript
