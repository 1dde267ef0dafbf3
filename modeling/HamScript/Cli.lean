/-
# What command lines ask for

    ham [-v] run [--max-depth N] [PATH]     runs a file or a project, by default the one here
    ham [-v] init NAME                      makes a project here
    ham [-v] tokens FILE                    shows the tokens of a file
    ham [-v] ast FILE                       shows the program of a file

How arguments are taken apart is the matter of a `Cli`; the one that the program works with is in
`HamScript.Cli.Flags`.
-/

namespace HamScript

/-- The commands. -/
inductive Command where
  | run | init | tokens | ast
  deriving Repr, DecidableEq

/-- The name of a command. -/
def Command.name : Command → String
  | run => "run"
  | init => "init"
  | tokens => "tokens"
  | ast => "ast"

/-- All commands. -/
def Command.all : List Command := [.run, .init, .tokens, .ast]

namespace Cli

/-- What a command is given. -/
structure Context where
  verbose : Bool
  /-- The value of `--max-depth`, if it is set. -/
  maxDepth : Option Int
  /-- The arguments that are not options, in their order. -/
  args : List String
  deriving Repr, DecidableEq

/-- The first argument; empty without one. -/
def Context.first (c : Context) : String :=
  c.args.head?.getD ""

/-- What becomes of a command line. -/
inductive Outcome where
  /-- A command is carried out. -/
  | act (command : Command) (context : Context)
  /-- A text is shown, and that is all. -/
  | help (text : String)
  /-- The arguments are refused. -/
  | refused (message : String)
  /-- The program ends with an exit code of its own. -/
  | exit (code : Nat) (message : String)
  deriving Repr, DecidableEq

end Cli

/-- How arguments are taken apart. -/
structure Cli where
  parse : List String → Cli.Outcome

end HamScript
