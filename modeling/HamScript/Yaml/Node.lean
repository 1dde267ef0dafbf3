/-
# Documents as trees
-/
import HamScript.Yaml.Scalar

namespace HamScript.Yaml

/-- A node of a document, with the number of the line that it starts on. -/
inductive Node where
  | scalar (line : Nat) (text : String) (label : Label)
  | sequence (line : Nat) (items : List Node)
  | mapping (line : Nat) (entries : List (Node × Node))
  /-- A name that stands for a node before it. -/
  | reference (line : Nat) (target : Node)
  /-- What a name stands for within the node that it names. -/
  | enclosing (line : Nat) (tag : Tag)
  deriving Repr

namespace Node

/-- The line that a node starts on. -/
def line : Node → Nat
  | scalar l _ _ => l
  | sequence l _ => l
  | mapping l _ => l
  | reference l _ => l
  | enclosing l _ => l

/-- The node that stands where nothing is written. -/
def absent (line : Nat) : Node :=
  .scalar line "" .plain

/-- The node itself, or what it stands for. -/
def target : Node → Node
  | reference _ n => n
  | n => n

/-- Whether a key stands for the entries of the mappings that are its value. -/
def isMerge : Node → Bool
  | scalar _ text label =>
    text == "<<" && (label == .plain || label == .tagged "!" || label == .tagged Tag.merge)
  | _ => false

end Node

end HamScript.Yaml
