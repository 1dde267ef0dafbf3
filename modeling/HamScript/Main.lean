/-
# The program

The outer layer: the disk and the streams of the machine.  What is done with them is decided in
`HamScript.Command`.
-/
import HamScript.Cli.Flags
import HamScript.Command
import HamScript.Manifest.Yaml

namespace HamScript

open Files

/-- Why the machine refused a request.  The machine has one error for both wrong kinds of node, and
its number tells them apart. -/
def refusalOf : IO.Error → Refusal
  | .alreadyExists .. => .exists
  | .inappropriateType _ number _ => if number = 21 then .isDirectory else .notDirectory
  | .permissionDenied .. => .denied
  | .invalidArgument .. => .tooManyLinks
  | _ => .missing

/-- What has been opened: a directory can be opened, but not read. -/
def kindOf (handle : IO.FS.Handle) : IO NodeKind := do
  try
    discard <| handle.read 1
    return .file
  catch _ => return .directory

/-- What a path names on the machine. -/
def machineStat (path : String) : IO (Except PathFault NodeKind) := do
  try
    return .ok (← kindOf (← IO.FS.Handle.mk path .read))
  catch e => return .error ⟨.stat, path, refusalOf e⟩

/-- The bytes of a file on the machine. -/
def machineRead (path : String) : IO (Except PathFault (List UInt8)) := do
  match ← machineStat path with
  | .ok .directory => return .error ⟨.read, path, .isDirectory⟩
  | .error fault => return .error { fault with request := .open }
  | .ok .file => return .ok (← IO.FS.readBinFile path).toList

/-- Writes a file of the machine that is opened in a mode. -/
def machinePut (mode : IO.FS.Mode) (path : String) (bytes : List UInt8) :
    IO (Except PathFault Unit) := do
  try
    let handle ← IO.FS.Handle.mk path mode
    handle.write ⟨bytes.toArray⟩
    return .ok ()
  catch e => return .error ⟨.open, path, refusalOf e⟩

/-- The disk of the machine. -/
def machineDisk : Disk IO where
  stat := machineStat
  read := machineRead
  create := machinePut .writeNew
  write := machinePut .write

/-- How many turns a loop may take. -/
def maxTurns : Nat := Decimal.twoTo 62

end HamScript

open HamScript in
/-- Answers the command line. -/
def main (args : List String) : IO UInt32 := do
  let report ← Command.answer .flags .yaml machineDisk maxTurns args
  match report.output with
  | .text s => IO.print s
  | .program p => IO.print p.outline
  IO.eprint report.errors
  return report.code.toUInt32
