/-
# Projects

A project is a source that can be run: a single file, or a directory with a manifest that says which
of its files comes first.
-/
import HamScript.Files.Disk
import HamScript.Manifest

namespace HamScript

open Files (Disk PathFault)
open Manifest (Codec)

/-! ## Manifests on a disk -/

/-- Why a project cannot be loaded. -/
inductive LoadFault where
  | path (fault : PathFault)
  /-- A directory has no manifest. -/
  | missingManifest (dir : String)
  | invalidManifest (file : String) (fault : Manifest.Fault)

/-- The report of a fault. -/
def LoadFault.message : LoadFault → String
  | .path fault => fault.message
  | .missingManifest dir => dir ++ " does not contain a " ++ Manifest.fileName
  | .invalidManifest file fault => "invalid manifest " ++ file ++ ": " ++ fault.message

/-- Why a manifest cannot be written. -/
inductive WriteFault where
  | path (fault : PathFault)
  /-- It has no document, for the reason given. -/
  | unwritable (reason : String)

/-- The report of a fault. -/
def WriteFault.message : WriteFault → String
  | .path fault => fault.message
  | .unwritable reason => reason

namespace Manifest

/-- The path of the manifest of a directory. -/
def pathIn (dir : String) : String :=
  Files.join dir fileName

/-- Reads a manifest from a disk. -/
def read {m : Type → Type} [Monad m] (codec : Codec) (disk : Disk m) (path : String) :
    m (Except LoadFault Manifest) := do
  match ← disk.read path with
  | .error fault => return .error (.path fault)
  | .ok bytes =>
    match ofBytes codec bytes with
    | .error fault => return .error (.invalidManifest path fault)
    | .ok manifest => return .ok manifest

/-- Writes the manifest of a directory, which must have none. -/
def write {m : Type → Type} [Monad m] (codec : Codec) (disk : Disk m) (dir : String)
    (manifest : Manifest) : m (Except WriteFault Unit) := do
  match codec.marshal manifest with
  | .error reason => return .error (.unwritable reason)
  | .ok bytes =>
    match ← disk.create (pathIn dir) bytes with
    | .error fault => return .error (.path fault)
    | .ok () => return .ok ()

end Manifest

/-! ## Projects -/

/-- A source with all that is needed to run it. -/
structure Project where
  dir : String
  /-- The path of the source. -/
  entry : String
  source : List UInt8
  /-- A single file has none. -/
  manifest : Option Manifest
  deriving Repr, DecidableEq

namespace Project

/-- How the names of sources end. -/
def extension : String := ".ham"

/-- The depth of calls that a project asks for; zero for the default. -/
def depth (p : Project) : Int :=
  p.manifest.elim 0 Manifest.maxCallDepth

/-- Loads a single file. -/
def loadFile {m : Type → Type} [Monad m] (disk : Disk m) (path : String) :
    m (Except LoadFault Project) := do
  match ← disk.read path with
  | .error fault => return .error (.path fault)
  | .ok source => return .ok ⟨Files.parent path, path, source, none⟩

/-- Loads the first source that a manifest of a directory names. -/
def loadEntry {m : Type → Type} [Monad m] (disk : Disk m) (dir : String) (manifest : Manifest) :
    m (Except LoadFault Project) := do
  let entry := Files.join dir manifest.main
  match ← disk.read entry with
  | .error fault => return .error (.path fault)
  | .ok source => return .ok ⟨dir, entry, source, some manifest⟩

/-- Loads the project of a directory. -/
def loadDirectory {m : Type → Type} [Monad m] (codec : Codec) (disk : Disk m) (dir : String) :
    m (Except LoadFault Project) := do
  match ← disk.stat (Manifest.pathIn dir) with
  | .error ⟨_, _, .missing⟩ => return .error (.missingManifest dir)
  | _ =>
    match ← Manifest.read codec disk (Manifest.pathIn dir) with
    | .error fault => return .error fault
    | .ok manifest => loadEntry disk dir manifest

/-- Loads the project at a path. -/
def load {m : Type → Type} [Monad m] (codec : Codec) (disk : Disk m) (path : String) :
    m (Except LoadFault Project) := do
  match ← disk.stat path with
  | .error fault => return .error (.path fault)
  | .ok .file => loadFile disk path
  | .ok .directory => loadDirectory codec disk path

end Project

end HamScript
