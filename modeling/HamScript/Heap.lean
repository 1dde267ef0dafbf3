/-
# Scopes and bindings

The heap holds all scopes ever made.  A scope has bindings and, unless it is outermost, a parent; a
name is looked up from a scope outward.  Pointers lead from binding to binding; following them stops
at the first binding that holds no pointer, and gives up after `maxHops` of them, which is how
pointers that lead in a circle are noticed.
-/
import HamScript.Value

namespace HamScript

/-- The bindings of a scope, in the order of their first definition. -/
abbrev Bindings := List (String × Slot)

namespace Bindings

/-- What a name is bound to. -/
def find? (bs : Bindings) (name : String) : Option Slot :=
  List.lookup name bs

/-- Binds a name, in place of its earlier binding if there is one. -/
def put (name : String) (slot : Slot) : Bindings → Bindings
  | [] => [(name, slot)]
  | b :: bs => if b.1 = name then (name, slot) :: bs else b :: put name slot bs

/-- The bound names, in order. -/
def names (bs : Bindings) : List String :=
  bs.map Prod.fst

end Bindings

/-- A scope. -/
structure Scope where
  parent : Option ScopeId
  bindings : Bindings

/-- All scopes, by number. -/
structure Heap where
  scopes : Array Scope

namespace Heap

/-- How many pointers are followed at most. -/
def maxHops : Nat := 64

/-- No scopes. -/
def empty : Heap :=
  ⟨#[]⟩

/-- Makes a scope without bindings inside `parent`, and gives its number. -/
def newScope (h : Heap) (parent : Option ScopeId) : ScopeId × Heap :=
  (h.scopes.size, ⟨h.scopes.push ⟨parent, []⟩⟩)

/-- The parent of a scope. -/
def parent? (h : Heap) (i : ScopeId) : Option ScopeId :=
  h.scopes[i]?.bind Scope.parent

/-- What a name is bound to in the scope `i` itself. -/
def find? (h : Heap) (i : ScopeId) (name : String) : Option Slot :=
  h.scopes[i]?.bind (·.bindings.find? name)

/-- The names bound in the scope `i` itself. -/
def names (h : Heap) (i : ScopeId) : List String :=
  match h.scopes[i]? with
  | some s => s.bindings.names
  | none => []

/-- The names bound in the scope `i` itself, sorted. -/
def sortedNames (h : Heap) (i : ScopeId) : List String :=
  (h.names i).mergeSort (fun a b => decide (a ≤ b))

/-- Binds a name in the scope `i` itself. -/
def define (h : Heap) (i : ScopeId) (name : String) (slot : Slot) : Heap :=
  ⟨h.scopes.modify i fun s => { s with bindings := s.bindings.put name slot }⟩

/-- Looks for a scope that binds the name, among `steps` scopes from `i` outward. -/
def resolveFrom (h : Heap) (name : String) : (steps : Nat) → ScopeId → Option ScopeId
  | 0, _ => none
  | steps + 1, i =>
    match h.scopes[i]? with
    | none => none
    | some s =>
      if (s.bindings.find? name).isSome then some i
      else
        match s.parent with
        | none => none
        | some p => resolveFrom h name steps p

/-- The innermost scope from `i` outward that binds the name.  A parent is older than its children,
so there are at most `i + 1` scopes to look at. -/
def resolve? (h : Heap) (i : ScopeId) (name : String) : Option ScopeId :=
  resolveFrom h name (i + 1) i

/-- What the name is bound to, seen from the scope `i`. -/
def get? (h : Heap) (i : ScopeId) (name : String) : Option Slot :=
  match h.resolve? i name with
  | some j => h.find? j name
  | none => none

/-- Changes the binding that the name has, seen from the scope `i`; `none` if there is none. -/
def assign? (h : Heap) (i : ScopeId) (name : String) (slot : Slot) : Option Heap :=
  match h.resolve? i name with
  | some j => some (h.define j name slot)
  | none => none

/-- The binding that the name has, seen from the scope `i`. -/
def pointer? (h : Heap) (i : ScopeId) (name : String) : Option Pointer :=
  (h.resolve? i name).map (⟨·, name⟩)

/-! ## Through pointers -/

/-- What the binding of a pointer holds; a missing one holds nothing. -/
def load (h : Heap) (p : Pointer) : Slot :=
  (h.find? p.scope p.name).join

/-- Changes the binding of a pointer. -/
def store (h : Heap) (p : Pointer) (slot : Slot) : Heap :=
  h.define p.scope p.name slot

/-- Follows at most `hops` pointers. -/
def followFrom (h : Heap) : (hops : Nat) → Pointer → Option Pointer
  | 0, _ => none
  | hops + 1, p =>
    match h.load p with
    | some (.pointer q) => followFrom h hops q
    | _ => some p

/-- The last pointer of the chain that begins with `p`: the one whose binding holds no pointer. -/
def follow? (h : Heap) (p : Pointer) : Option Pointer :=
  h.followFrom maxHops p

/-- What a value refers to in the end: itself, or what its chain of pointers leads to; `none` if the
chain does not end. -/
def deref? (h : Heap) (v : Value) : Option Slot :=
  match v with
  | .pointer p => (h.follow? p).map h.load
  | v => some (some v)

/-- What a binding holds, as text; a pointer shows what it leads to. -/
def text (h : Heap) (slot : Slot) : String :=
  match slot with
  | some (.pointer p) =>
    match h.deref? (.pointer p) with
    | some target => Value.slotText target
    | none => Value.brokenText p
  | slot => Value.slotText slot

end Heap

end HamScript
