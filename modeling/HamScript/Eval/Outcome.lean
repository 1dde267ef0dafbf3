/-
# What running does

Running a piece of a program changes the world, that is, the heap and what has been printed, and has
an outcome: a value, a fault, a misuse, or none because a loop took too many turns.

A misuse is a broken promise between the parts of the interpreter, such as reading a binding that
holds nothing.  Programs never lead to one; it can be brought about only by calling a builtin
directly.
-/
import HamScript.Eval.Fault
import HamScript.Heap

namespace HamScript

open Source (Span)

/-- A call of a function, for the record. -/
structure CallNote where
  name : String
  /-- How many calls were active, this one included. -/
  depth : Nat
  deriving Repr, DecidableEq

/-- What running can change. -/
structure World where
  heap : Heap
  /-- Everything that has been printed. -/
  output : String
  /-- The recorded calls, the latest first. -/
  calls : List CallNote

/-- Promises that the parts of the interpreter make to each other. -/
inductive Misuse where
  /-- A builtin has been given fewer arguments than it reads. -/
  | missingArgument (index count : Nat)
  /-- A binding that is used holds nothing. -/
  | emptySlot
  /-- An integer has been divided by zero. -/
  | zeroDivisor
  deriving Repr, DecidableEq

/-- The report of a misuse. -/
def Misuse.message : Misuse → String
  | missingArgument i n => s!"runtime error: index out of range [{i}] with length {n}"
  | emptySlot => "runtime error: invalid memory address or nil pointer dereference"
  | zeroDivisor => "division by zero"

/-- How running ends. -/
inductive Outcome (α : Type) where
  | value (a : α) (w : World)
  | fault (f : RuntimeFault) (w : World)
  | misuse (m : Misuse)
  /-- A loop reached the bound on its turns. -/
  | exhausted

/-- A computation that runs in a world. -/
def Eval (α : Type) : Type :=
  World → Outcome α

namespace Eval

/-- Does nothing. -/
@[inline] protected def pure {α : Type} (a : α) : Eval α :=
  fun w => .value a w

/-- Runs one computation and then another one with its value. -/
@[inline] protected def bind {α β : Type} (x : Eval α) (f : α → Eval β) : Eval β := fun w =>
  match x w with
  | .value a w' => f a w'
  | .fault e w' => .fault e w'
  | .misuse m => .misuse m
  | .exhausted => .exhausted

instance : Monad Eval where
  pure := Eval.pure
  bind := Eval.bind

/-- Stops with a fault at a place. -/
def raise {α : Type} (cause : Cause) (span : Span) : Eval α :=
  fun w => .fault ⟨cause, span⟩ w

/-- Stops with a misuse. -/
def misuse {α : Type} (m : Misuse) : Eval α :=
  fun _ => .misuse m

/-- Stops because a loop took too many turns. -/
def exhausted {α : Type} : Eval α :=
  fun _ => .exhausted

/-- Looks at the heap. -/
@[inline] def read {α : Type} (f : Heap → α) : Eval α :=
  fun w => .value (f w.heap) w

/-- Changes the heap. -/
@[inline] def update (f : Heap → Heap) : Eval Unit := fun w =>
  let ⟨heap, output, calls⟩ := w
  .value () ⟨f heap, output, calls⟩

/-- Prints a text. -/
def print (text : String) : Eval Unit := fun w =>
  let ⟨heap, output, calls⟩ := w
  .value () ⟨heap, output ++ text, calls⟩

/-- Records a call. -/
def note (call : CallNote) : Eval Unit := fun w =>
  let ⟨heap, output, calls⟩ := w
  .value () ⟨heap, output, call :: calls⟩

/-- Makes a scope inside `parent`. -/
def newScope (parent : ScopeId) : Eval ScopeId := fun w =>
  let ⟨heap, output, calls⟩ := w
  let (i, heap) := heap.newScope (some parent)
  .value i ⟨heap, output, calls⟩

/-- Binds a name in a scope. -/
def define (scope : ScopeId) (name : String) (v : Value) : Eval Unit :=
  update (·.define scope name (some v))

/-- The value that a binding holds. -/
def filled (slot : Slot) : Eval Value :=
  match slot with
  | some v => pure v
  | none => misuse .emptySlot

/-- What a value refers to, where a plain value is needed at `span`. -/
def derefSlot (v : Value) (span : Span) : Eval Slot :=
  match v with
  | .pointer p => do
    match ← read (·.deref? (.pointer p)) with
    | some slot => return slot
    | none => raise (.circularPointer p.name) span
  | v => return some v

/-- The plain value that a value refers to. -/
def plain (v : Value) (span : Span) : Eval Value := do
  filled (← derefSlot v span)

/-- Reads a name. -/
def lookup (scope : ScopeId) (name : String) (span : Span) : Eval Value := do
  match ← read (·.get? scope name) with
  | some slot => filled slot
  | none => raise (.undefinedName name) span

/-- A pointer to the binding of a name. -/
def reference (scope : ScopeId) (name : String) (span : Span) : Eval Value := do
  match ← read (·.pointer? scope name) with
  | some p => return .pointer p
  | none => raise (.undefinedName name) span

/-- Assigns to a name that stands at `span`.  If its binding holds a pointer, the assignment goes
through it. -/
def store (scope : ScopeId) (name : String) (v : Value) (span : Span) : Eval Unit := do
  match ← read (·.pointer? scope name) with
  | none => raise (.undefinedTarget name) span
  | some slot =>
    match ← read (·.follow? slot) with
    | none => raise (.circularTarget name) span
    | some last => update (·.store last (some v))

end Eval

end HamScript
