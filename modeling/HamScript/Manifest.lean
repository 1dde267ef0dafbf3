/-
# Manifests

A manifest names a project and says how it is run.  It is kept as a document with the keys `name`,
`version`, `main` and `max_call_depth`, the last two of which may be left out.

How a manifest becomes a document and a document a manifest is the matter of a `Codec`; the one that
the program works with is in `HamScript.Manifest.Yaml`.  What a document says is checked here: name
and version have to be there, a missing `main` stands for `main.ham`, and the depth has limits.
-/
import HamScript.Session

namespace HamScript

/-- What a project says of itself. -/
structure Manifest where
  name : String
  version : String
  /-- The path of the first source, from the directory of the project. -/
  main : String
  /-- How many calls may be active at once; zero for the default. -/
  maxCallDepth : Int
  deriving Repr, DecidableEq

namespace Manifest

/-- The file that holds a manifest. -/
def fileName : String := "ham.yml"

/-- The first source of a project that names none. -/
def defaultMain : String := "main.ham"

/-- A manifest of which nothing has been said. -/
def blank : Manifest := ⟨"", "", "", 0⟩

/-! ## Documents -/

/-- The fields of a manifest. -/
inductive Field where
  | name | version | main | maxCallDepth
  deriving Repr, DecidableEq

namespace Field

/-- The key of a field. -/
def key : Field → String
  | name => "name"
  | version => "version"
  | main => "main"
  | maxCallDepth => "max_call_depth"

/-- All fields, in the order in which they are written. -/
def all : List Field := [name, version, main, maxCallDepth]

/-- The field of a key. -/
def ofKey? (key : String) : Option Field :=
  all.find? (·.key = key)

end Field

/-- How manifests are written as documents and read from them. -/
structure Codec where
  /-- The document of a manifest, or why there is none. -/
  marshal : Manifest → Except String (List UInt8)
  /-- What a document says, starting from a blank manifest, or what is wrong with it.  A key that is
  not one of a manifest is wrong, and so is one that stands twice. -/
  unmarshalStrict : List UInt8 → Except String Manifest

/-! ## Checks -/

/-- Why a document is no manifest. -/
inductive Fault where
  /-- It cannot be read, for the reason given. -/
  | unreadable (reason : String)
  | noName
  | noVersion
  | negativeDepth
  | depthTooLarge
  deriving Repr, DecidableEq

/-- The report of a fault. -/
def Fault.message : Fault → String
  | unreadable reason => reason
  | noName => "name is required"
  | noVersion => "version is required"
  | negativeDepth => "max_call_depth must not be negative"
  | depthTooLarge => "max_call_depth must not exceed " ++ toString Settings.depthLimit

/-- Checks the fields of a manifest, and completes it. -/
def checked (m : Manifest) : Except Fault Manifest :=
  if m.name = "" then .error .noName
  else if m.version = "" then .error .noVersion
  else if m.maxCallDepth < 0 then .error .negativeDepth
  else if Settings.depthLimit < m.maxCallDepth then .error .depthTooLarge
  else .ok { m with main := if m.main = "" then defaultMain else m.main }

/-- The manifest that a document holds. -/
def ofBytes (codec : Codec) (bytes : List UInt8) : Except Fault Manifest :=
  match codec.unmarshalStrict bytes with
  | .error reason => .error (.unreadable reason)
  | .ok m => m.checked

end Manifest

end HamScript
