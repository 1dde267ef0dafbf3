/-
# Manifests in YAML

A manifest is a flat YAML mapping.

* A key that is not one of a manifest is a fault, and so is a key that stands twice; all such faults
  of a document are reported together, in the order in which they are met.
* The key `<<` takes in the entries of other mappings.  An entry after it has the last word.
* A field that is missing or null is left as it is.
-/
import HamScript.Manifest
import HamScript.Yaml.Bytes
import HamScript.Yaml.Document
import HamScript.Yaml.Written

namespace HamScript.Manifest

/-! ## What can be wrong -/

/-- What a node was to be. -/
inductive Shape where
  | text | integer | manifest
  deriving Repr, DecidableEq

/-- The name of a shape. -/
def Shape.name : Shape → String
  | text => "string"
  | integer => "int"
  | manifest => "reader.Manifest"

/-- What is wrong with the shape of a document. -/
inductive ShapeFault where
  | unknownKey (line : Nat) (key : String)
  | repeatedKey (line : Nat) (key : String)
  /-- A node is of another kind than was due. -/
  | mismatch (node : Yaml.Node) (due : Shape)

/-- The start of a scalar's text, as reports show it: all of a short one, else its first bytes. -/
def shownText (text : String) : String :=
  let bytes := text.toUTF8.toList
  if 10 < bytes.length then Source.Glyph.text (Source.Glyph.ofBytes (bytes.take 7)) ++ "..."
  else text

/-- What a report shows of a scalar: its tag and its text. -/
def shownScalar (text : String) (label : Yaml.Label) : String :=
  if label = .tagged Yaml.Tag.seq.full ∨ label = .tagged Yaml.Tag.map.full then
    label.tagName text ++ text
  else label.tagName text ++ " \x60" ++ shownText text ++ "\x60"

/-- What a report shows of a node. -/
def shownNode : Yaml.Node → String
  | .scalar _ text label => shownScalar text label
  | .sequence _ _ => Yaml.Tag.shortName Yaml.Tag.seq.full
  | .mapping _ _ => Yaml.Tag.shortName Yaml.Tag.map.full
  | .reference _ n => shownNode n
  | .enclosing _ tag => Yaml.Tag.shortName tag.full

/-- The report of a fault of shape. -/
def ShapeFault.message : ShapeFault → String
  | unknownKey line key =>
    "line " ++ toString line ++ ": field " ++ key ++ " not found in type " ++ Shape.manifest.name
  | repeatedKey line key =>
    "line " ++ toString line ++ ": field " ++ key ++ " already set in type " ++ Shape.manifest.name
  | mismatch node due =>
    "line " ++ toString node.line ++ ": cannot unmarshal " ++ shownNode node ++ " into " ++ due.name

/-! ## From documents -/

/-- What is read from a node: a value or a fault of shape; `none` if a scalar cannot mean what its tag
says. -/
abbrev Read (α : Type) := Option (Except ShapeFault α)

/-- The text that a scalar gives.  Null gives the empty text, base 64 the text of its bytes, and any
other scalar the text that it is written as. -/
def givenText (text : String) : Yaml.Meaning → String
  | .null => ""
  | .bytes data => Source.Glyph.text (Source.Glyph.ofBytes data)
  | _ => text

/-- The text that a node gives. -/
def textOf (n : Yaml.Node) : Read String :=
  match n.target with
  | .scalar _ text label => (label.meaning? text).map fun m => .ok (givenText text m)
  | t => some (.error (.mismatch t .text))

/-- The integer that a meaning gives.  Null gives zero. -/
def givenInteger? : Yaml.Meaning → Option Int
  | .null => some 0
  | m => m.word?

/-- The integer that a node gives. -/
def integerOf (n : Yaml.Node) : Read Int :=
  match n.target with
  | .scalar line text label =>
    (label.meaning? text).map fun m =>
      match givenInteger? m with
      | some k => .ok k
      | none => .error (.mismatch (.scalar line text label) .integer)
  | t => some (.error (.mismatch t .integer))

/-- Sets a field from a node. -/
def set (m : Manifest) (f : Field) (n : Yaml.Node) : Read Manifest :=
  match f with
  | .name => (textOf n).map fun r => r.map fun t => { m with name := t }
  | .version => (textOf n).map fun r => r.map fun t => { m with version := t }
  | .main => (textOf n).map fun r => r.map fun t => { m with main := t }
  | .maxCallDepth => (integerOf n).map fun r => r.map fun k => { m with maxCallDepth := k }

/-- What has been read of a manifest: its fields so far, those that have been met in the mapping that
is being read, and the faults, the last one first. -/
structure Draft where
  manifest : Manifest
  met : List Field
  faults : List ShapeFault

namespace Draft

/-- Reports a fault. -/
def fail (d : Draft) (f : ShapeFault) : Draft :=
  { d with faults := f :: d.faults }

/-- Reads the value of a field. -/
def take (d : Draft) (f : Field) (value : Yaml.Node) : Option Draft :=
  let d := { d with met := f :: d.met }
  (d.manifest.set f value).map fun
    | .ok m => { d with manifest := m }
    | .error fault => d.fail fault

/-- Reads an entry. -/
def add (d : Draft) (key value : Yaml.Node) : Option Draft := do
  match ← textOf key with
  | .error fault => some (d.fail fault)
  | .ok name =>
    match Field.ofKey? name with
    | none => some (d.fail (.unknownKey key.line name))
    | some f =>
      if f ∈ d.met then some (d.fail (.repeatedKey key.line name)) else d.take f value

/-- A draft in which no field has been met. -/
def unmet (d : Draft) : Draft :=
  { d with met := [] }

/-- What has been merged into a draft, with the fields that were met in the draft itself. -/
def rejoin (d merged : Draft) : Draft :=
  { merged with met := d.met }

mutual

/-- Reads the entries of a mapping.  What a merge key has as its value is merged in its place. -/
def addEntries (d : Draft) : List (Yaml.Node × Yaml.Node) → Option Draft
  | [] => some d
  | (key, value) :: rest => do
    let d ← if key.isMerge then merge d value else d.add key value
    addEntries d rest

/-- Merges a mapping or a sequence of mappings. -/
def merge (d : Draft) : Yaml.Node → Option Draft
  | .mapping _ entries => (addEntries d.unmet entries).map d.rejoin
  | .reference _ (.mapping _ entries) => (addEntries d.unmet entries).map d.rejoin
  | .sequence _ items => mergeItems d items
  | _ => none

/-- Merges mappings, the last one first. -/
def mergeItems (d : Draft) : List Yaml.Node → Option Draft
  | [] => some d
  | .mapping _ entries :: rest => do
    let d ← mergeItems d rest
    (addEntries d.unmet entries).map d.rejoin
  | .reference _ (.mapping _ entries) :: rest => do
    let d ← mergeItems d rest
    (addEntries d.unmet entries).map d.rejoin
  | _ => none

end

/-- The manifest of a draft without faults. -/
def finish (d : Draft) : Except (List ShapeFault) Manifest :=
  if d.faults.isEmpty then .ok d.manifest else .error d.faults.reverse

end Draft

/-- The fields that a document gives; `none` if it is malformed.  An empty document gives none. -/
def ofDocument : Option Yaml.Node → Option (Except (List ShapeFault) Manifest)
  | none => some (.ok blank)
  | some (.mapping _ entries) => (Draft.addEntries ⟨blank, [], []⟩ entries).map Draft.finish
  | some (.scalar line text label) =>
    (label.meaning? text).map fun m =>
      if m = .null then .ok blank else .error [.mismatch (.scalar line text label) .manifest]
  | some n => some (.error [.mismatch n .manifest])

/-! ## The codec -/

/-- The report of faults of shape. -/
def misshapen (faults : List ShapeFault) : String :=
  "yaml: unmarshal errors:\n  " ++ "\n  ".intercalate (faults.map ShapeFault.message)

/-- What a text says of a manifest. -/
def ofText (text : String) : Except String Manifest :=
  match Yaml.Document.read text >>= ofDocument with
  | none => .error "yaml: syntax error"
  | some (.error faults) => .error (misshapen faults)
  | some (.ok m) => .ok m

/-- A manifest as text.  A `main` that is empty and a depth of zero are left out. -/
def toText (m : Manifest) : String :=
  String.ofList
    (Yaml.writeText Field.name.key m.name ++ Yaml.writeText Field.version.key m.version ++
      (if m.main = "" then [] else Yaml.writeText Field.main.key m.main) ++
      (if m.maxCallDepth = 0 then [] else Yaml.writeInt Field.maxCallDepth.key m.maxCallDepth))

/-- YAML, as manifests are written in it. -/
def Codec.yaml : Codec where
  marshal m := .ok m.toText.toUTF8.data.toList
  unmarshalStrict bytes :=
    match Yaml.textOfBytes? bytes with
    | none => .error "yaml: syntax error"
    | some text => ofText text

end HamScript.Manifest
