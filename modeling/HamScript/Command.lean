/-
# The commands

What each command does, and what it reports.  What is wrong with a program is reported on the error
stream, what is wrong with files or with arguments on the output.
-/
import HamScript.Cli
import HamScript.Project
import HamScript.Syntax.Render

namespace HamScript

open Files (Disk PathFault)
open Manifest (Codec)

/-! ## Notices -/

/-- What happens on the way. -/
inductive Notice where
  | oddExtension (path : String)
  | loaded (manifest : Manifest)
  | wrote (path : String)
  | running (file : String) (statements : Nat)
  | call (note : CallNote)
  deriving Repr, DecidableEq

namespace Notice

/-- Whether a notice is shown without being asked for. -/
def isWarning : Notice → Bool
  | oddExtension _ => true
  | _ => false

/-- The line of a notice. -/
def line : Notice → String
  | oddExtension path =>
    "W | reader: " ++ path ++ " does not have the " ++ Project.extension ++ " extension\n"
  | loaded m =>
    "I | reader: loaded project " ++ m.name ++ " " ++ m.version ++ " (entry " ++ m.main ++ ")\n"
  | wrote path => "I | reader: wrote " ++ path ++ "\n"
  | running file n => "D | interp: running " ++ file ++ " (" ++ toString n ++ " statements)\n"
  | call c => "D | interp: call " ++ c.name ++ " depth=" ++ toString c.depth ++ "\n"

/-- The lines of the notices that are shown. -/
def lines (verbose : Bool) (ns : List Notice) : String :=
  String.join ((ns.filter fun n => n.isWarning || verbose).map line)

end Notice

/-- The notices of loading a project. -/
def Project.notices (p : Project) : List Notice :=
  match p.manifest with
  | some m => [.loaded m]
  | none => if Files.extension p.entry = Project.extension then [] else [.oddExtension p.entry]

/-! ## Reports -/

/-- What a command shows on the output. -/
inductive Shown where
  | text (s : String)
  | program (p : Program)

/-- How a command ends. -/
structure Report where
  code : Nat
  output : Shown
  errors : String

namespace Report

/-- All went well. -/
def done (output errors : String) : Report := ⟨0, .text output, errors⟩

/-- A failure that is reported on the output. -/
def failed (message : String) : Report := ⟨1, .text (message ++ "\n"), ""⟩

/-- A failure that is reported on the error stream. -/
def refused (message : String) : Report := ⟨1, .text "", message ++ "\n"⟩

/-- Puts notices in front of the error stream. -/
def after (r : Report) (verbose : Bool) (notices : List Notice) : Report :=
  { r with errors := Notice.lines verbose notices ++ r.errors }

end Report

namespace Command

/-! ## Running -/

/-- The report of a step of a session, without its notices. -/
def reportStep (file : String) (s : Step) : Report :=
  match s.result with
  | .value _ => .done s.output ""
  | .fault f => ⟨1, .text s.output, f.describe file ++ "\n"⟩
  | .misuse m => ⟨2, .text s.output, m.message ++ "\n"⟩
  | .exhausted => ⟨2, .text s.output, "out of turns\n"⟩

/-- Runs a source that has been loaded, with a limit on the depth of calls. -/
def runSource (maxTurns : Nat) (verbose : Bool) (file : String) (source : List UInt8)
    (depth : Int) : Report :=
  let settings := Settings.ofRequest file depth
  match Program.ofGlyphs (Source.Glyph.ofBytes source) .finished with
  | .error f => .refused (f.describe settings.file)
  | .ok p =>
    let step := (Session.start settings).run maxTurns verbose p
    (reportStep settings.file step).after verbose
      (.running settings.file p.length :: step.calls.map .call)

/-- Whether a depth may be asked for. -/
def depthFits (depth : Int) : Bool :=
  decide (1 ≤ depth) && decide (depth ≤ Settings.depthLimit)

/-- Runs a project, with the depth that was asked for or else its own. -/
def runProject (maxTurns : Nat) (verbose : Bool) (p : Project) (depth : Option Int) : Report :=
  let report :=
    if depth.all depthFits then
      runSource maxTurns verbose p.entry p.source (depth.getD p.depth)
    else .refused ("--max-depth must be between 1 and " ++ toString Settings.depthLimit)
  report.after verbose p.notices

/-! ## New projects -/

/-- The manifest of a new project. -/
def newManifest (name : String) : Manifest :=
  ⟨name, "0.1.0", Manifest.defaultMain, 0⟩

/-- The source of a new project. -/
def newSource : String :=
  "fn main() \x7b\n\tprintln(\"Hello from Ham\")\n\x7d\n\nmain()\n"

/-- Makes the first source of a new project, unless something is there already. -/
def createMain {m : Type → Type} [Monad m] (disk : Disk m) : m (Except PathFault Unit) := do
  match ← disk.stat Manifest.defaultMain with
  | .error ⟨_, _, .missing⟩ =>
    disk.write (Files.join "." Manifest.defaultMain) newSource.toUTF8.data.toList
  | _ => return .ok ()

/-- The report on making the first source. -/
def reportMain : Except PathFault Unit → Report
  | .error fault => .failed fault.message
  | .ok () => .done "" ""

/-- Makes a project in the working directory. -/
def initProject {m : Type → Type} [Monad m] (codec : Codec) (disk : Disk m) (verbose : Bool)
    (name : String) : m Report := do
  match ← Manifest.write codec disk "." (newManifest name) with
  | .error fault => return .failed fault.message
  | .ok () =>
    let made ← createMain disk
    return (reportMain made).after verbose [.wrote (Manifest.pathIn ".")]

/-! ## Tokens and programs of a file -/

/-- The report on the tokens of a source. -/
def showTokens (file : String) (source : List UInt8) : Report :=
  let scan := Scan.ofGlyphs (Source.Glyph.ofBytes source) .finished
  match scan.stop with
  | .error f => .refused ((SyntaxFault.scan f).describe file)
  | .ok p => .done (String.join ((scan.tokens ++ [Token.endAt p]).map fun t => t.describe ++ "\n")) ""

/-- The report on the program of a source. -/
def showProgram (file : String) (source : List UInt8) : Report :=
  match Program.ofGlyphs (Source.Glyph.ofBytes source) .finished with
  | .error f => .refused (f.describe file)
  | .ok p => ⟨0, .program p, ""⟩

/-- Reports on the source in a file. -/
def withFile {m : Type → Type} [Monad m] (disk : Disk m) (file : String)
    (report : List UInt8 → Report) : m Report := do
  if file = "" then return .refused "no file provided"
  else
    match ← disk.read file with
    | .error fault => return .failed fault.message
    | .ok source => return report source

/-! ## All commands -/

/-- The path that is to be run; without one, the working directory. -/
def pathToRun (context : Cli.Context) : String :=
  if context.first = "" then "." else context.first

/-- Runs the project at a path. -/
def runPath {m : Type → Type} [Monad m] (codec : Codec) (disk : Disk m) (maxTurns : Nat)
    (verbose : Bool) (path : String) (depth : Option Int) : m Report := do
  match ← Project.load codec disk path with
  | .error fault => return .failed fault.message
  | .ok p => return runProject maxTurns verbose p depth

/-- Carries out a command. -/
def perform {m : Type → Type} [Monad m] (codec : Codec) (disk : Disk m) (maxTurns : Nat)
    (context : Cli.Context) : Command → m Report
  | .run => runPath codec disk maxTurns context.verbose (pathToRun context) context.maxDepth
  | .init =>
    if context.first = "" then return .refused "no project name provided"
    else initProject codec disk context.verbose context.first
  | .tokens => withFile disk context.first (showTokens context.first)
  | .ast => withFile disk context.first (showProgram context.first)

/-- Answers a command line. -/
def answer {m : Type → Type} [Monad m] (cli : Cli) (codec : Codec) (disk : Disk m) (maxTurns : Nat)
    (args : List String) : m Report :=
  match cli.parse args with
  | .act command context => command.perform codec disk maxTurns context
  | .help text => return .done text ""
  | .refused message => return .failed message
  | .exit code message => return { Report.refused message with code := code }

end Command

end HamScript
