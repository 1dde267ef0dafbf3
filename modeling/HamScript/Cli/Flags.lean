/-
# Options

Options stand before the first other argument; after it they are arguments like any other.  They are
looked for twice, before the name of the command and after it:

    before    -v, --verbose              to be verbose
    after     --max-depth                of `run` only, with an integer
    both      -h, --help                 to be shown help

An option is written with one dash or two, and a value stands after `=`.  A value that must be there
may also be the next argument.  Two dashes alone end the options.

Help is shown too where no command is named, and by the command `help`.  What the help says is left
out here, and so is what a refusal says about the use of commands.
-/
import HamScript.Cli
import HamScript.Decimal.Word
import HamScript.Text.Quoted

namespace HamScript.Cli

/-! ## One option -/

/-- What is wrong with options. -/
inductive FlagFault where
  | badSyntax (arg : String)
  | unknown (name : String)
  | missingValue (name : String)
  | badBoolean (name value : String)
  | badInteger (name value : String)
  | tooLarge (name value : String)
  | twoForms (name other : String)
  deriving Repr, DecidableEq

/-- The report of a fault. -/
def FlagFault.message : FlagFault → String
  | badSyntax arg => "bad flag syntax: " ++ arg
  | unknown name => "flag provided but not defined: -" ++ name
  | missingValue name => "flag needs an argument: -" ++ name
  | badBoolean name value =>
    "invalid boolean value " ++ Text.quoted value ++ " for -" ++ name ++ ": parse error"
  | badInteger name value =>
    "invalid value " ++ Text.quoted value ++ " for flag -" ++ name ++ ": parse error"
  | tooLarge name value =>
    "invalid value " ++ Text.quoted value ++ " for flag -" ++ name ++ ": value out of range"
  | twoForms name other => "Cannot use two forms of the same flag: " ++ name ++ " " ++ other

/-- What an argument is, as far as options go. -/
inductive Lexeme where
  /-- An option: its name, and its value if that stands after `=`. -/
  | flag (name : String) (value : Option String)
  /-- The end of the options. -/
  | terminator
  /-- Another argument. -/
  | positional
  /-- Dashes, but no option after them. -/
  | malformed
  deriving Repr, DecidableEq

/-- The option that the text after the dashes writes. -/
def Lexeme.ofBody : List Char → Lexeme
  | [] => .malformed
  | c :: cs =>
    if c = '-' ∨ c = '=' then .malformed
    else
      .flag (String.ofList (c :: cs.takeWhile (· ≠ '=')))
        (match cs.dropWhile (· ≠ '=') with
        | [] => none
        | _ :: value => some (String.ofList value))

/-- What an argument is.  A single dash is no option. -/
def Lexeme.ofArg (arg : String) : Lexeme :=
  match arg.toList with
  | ['-'] => .positional
  | ['-', '-'] => .terminator
  | '-' :: '-' :: cs => ofBody cs
  | '-' :: cs => ofBody cs
  | _ => .positional

/-! ## Options in a row -/

/-- The value of an option. -/
inductive Setting where
  | boolean (b : Bool)
  | integer (n : Int)
  deriving Repr, DecidableEq

/-- What an option takes. -/
inductive FlagKind where
  | boolean | integer
  deriving Repr, DecidableEq

/-- An option with all its names. -/
structure Flag where
  names : List String
  kind : FlagKind
  deriving Repr, DecidableEq

/-- The truth value that a text writes. -/
def boolean? (text : String) : Option Bool :=
  if text ∈ ["1", "t", "T", "true", "TRUE", "True"] then some true
  else if text ∈ ["0", "f", "F", "false", "FALSE", "False"] then some false
  else none

/-- The truth value of an option. -/
def booleanSetting (name value : String) : Except FlagFault Setting :=
  match boolean? value with
  | some b => .ok (.boolean b)
  | none => .error (.badBoolean name value)

/-- The integer of an option. -/
def integerSetting (name value : String) : Except FlagFault Setting :=
  match Decimal.signedWord? value.toList, Decimal.signedOf? Decimal.separated? value.toList with
  | some n, _ => .ok (.integer n)
  | none, some _ => .error (.tooLarge name value)
  | none, none => .error (.badInteger name value)

/-- What has been set, under the names that were given, the last one first. -/
abbrev Settings := List (String × Setting)

/-- Sets options from the front of the arguments on.  Gives what has been set, and the arguments
after the options unless one of them is at fault. -/
def takeFlags (flags : List Flag) (set : Settings) :
    List String → Settings × Except FlagFault (List String)
  | [] => (set, .ok [])
  | arg :: args =>
    match Lexeme.ofArg arg with
    | .positional => (set, .ok (arg :: args))
    | .terminator => (set, .ok args)
    | .malformed => (set, .error (.badSyntax arg))
    | .flag name value =>
      match flags.find? (·.names.contains name) with
      | none => (set, .error (.unknown name))
      | some ⟨_, .boolean⟩ =>
        match booleanSetting name (value.getD "true") with
        | .ok s => takeFlags flags ((name, s) :: set) args
        | .error fault => (set, .error fault)
      | some ⟨_, .integer⟩ =>
        match value, args with
        | some text, args =>
          match integerSetting name text with
          | .ok s => takeFlags flags ((name, s) :: set) args
          | .error fault => (set, .error fault)
        | none, text :: args =>
          match integerSetting name text with
          | .ok s => takeFlags flags ((name, s) :: set) args
          | .error fault => (set, .error fault)
        | none, [] => (set, .error (.missingValue name))

/-- An option that has been given under two of its names. -/
def twoForms? (flags : List Flag) (set : Settings) : Option FlagFault :=
  flags.findSome? fun flag =>
    match flag.names.filter fun name => (List.lookup name set).isSome with
    | first :: second :: _ => some (.twoForms second first)
    | _ => none

/-- The value of an option, under whichever name it was given. -/
def Flag.value? (flag : Flag) (set : Settings) : Option Setting :=
  flag.names.findSome? fun name => List.lookup name set

/-! ## The options of the program -/

/-- To be verbose. -/
def verboseFlag : Flag := ⟨["verbose", "v"], .boolean⟩

/-- How deep calls may be nested. -/
def depthFlag : Flag := ⟨["max-depth"], .integer⟩

/-- To be shown help. -/
def helpFlag : Flag := ⟨["help", "h"], .boolean⟩

/-- The options of a command. -/
def commandFlags : Command → List Flag
  | .run => [depthFlag, helpFlag]
  | _ => [helpFlag]

/-- Whether an option is set to true. -/
def Flag.isOn (flag : Flag) (set : Settings) : Bool :=
  flag.value? set == some (.boolean true)

/-- The integer that an option is set to. -/
def Flag.integer? (flag : Flag) (set : Settings) : Option Int :=
  match flag.value? set with
  | some (.integer n) => some n
  | _ => none

/-- The names of the command that shows help. -/
def helpNames : List String := ["help", "h"]

/-- What is shown as help. -/
def helpText : String := ""

/-- Shows help on a topic: a command, or nothing in particular. -/
def helpOn (topic : String) : Outcome :=
  if topic = "" ∨ topic ∈ Command.all.map Command.name ++ helpNames then .help helpText
  else .exit 3 ("No help topic for '" ++ topic ++ "'")

/-- Takes the options after the name of a command, and goes on with the other arguments. -/
def afterName (flags : List Flag) (args : List String) (next : Settings → List String → Outcome) :
    Outcome :=
  match takeFlags flags [] args with
  | (_, .error fault) => .refused fault.message
  | (set, .ok rest) =>
    match twoForms? flags set with
    | some fault => .refused fault.message
    | none => if helpFlag.isOn set then .help helpText else next set rest

/-- What becomes of the arguments from the name of the command on. -/
def atName (verbose : Bool) : List String → Outcome
  | [] => .help helpText
  | name :: args =>
    match Command.all.find? (·.name = name) with
    | some command => afterName (commandFlags command) args fun set rest =>
      .act command ⟨verbose, depthFlag.integer? set, rest⟩
    | none =>
      if name ∈ helpNames then
        afterName [helpFlag] args fun _ rest => helpOn (rest.head?.getD "")
      else helpOn name

/-- Options before and after the name of the command. -/
def flags : Cli where
  parse args :=
    let all := [verboseFlag, helpFlag]
    let (set, rest) := takeFlags all [] args
    match twoForms? all set, rest with
    | some fault, _ => .refused fault.message
    | none, .error fault => .refused fault.message
    | none, .ok rest =>
      if helpFlag.isOn set then .help helpText else atName (verboseFlag.isOn set) rest

end HamScript.Cli
