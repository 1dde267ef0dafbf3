/-
# What is relied on of command lines

After the name of a command, options end at the first argument that is none, or at two dashes.  What
stands from there on is given to the command as it is (`Cli.Documented`).  So an argument can be given
to a command in two ways: alone, unless it looks like an option, or behind two dashes (`Cli.Gives`).

The options that the program works with are of that kind (`Cli.documented_flags`).
-/
import HamScript.Cli.Flags

namespace HamScript.Cli

/-- An argument that is not taken for an option. -/
def IsPlainArg (arg : String) : Prop :=
  arg.toList.head? ≠ some '-' ∨ arg = "-"

/-- What is relied on of the way in which arguments are taken apart. -/
structure Documented (cli : Cli) : Prop where
  /-- Options end before the first argument that is none. -/
  positional : ∀ (command : Command) (args : List String),
    (∀ arg, args.head? = some arg → IsPlainArg arg) →
    cli.parse (command.name :: args) = .act command ⟨false, none, args⟩
  /-- Two dashes end the options. -/
  terminated : ∀ (command : Command) (args : List String),
    cli.parse (command.name :: "--" :: args) = .act command ⟨false, none, args⟩

/-- The ways to give one argument to a command. -/
inductive Gives (arg : String) : List String → Prop
  | alone : IsPlainArg arg → Gives arg [arg]
  | afterDashes : Gives arg ["--", arg]

theorem Documented.parse_gives {cli : Cli} (h : cli.Documented) {arg : String} {args : List String}
    (hargs : Gives arg args) (command : Command) :
    cli.parse (command.name :: args) = .act command ⟨false, none, [arg]⟩ := by
  cases hargs with
  | alone hplain =>
      refine h.positional command [arg] fun first hfirst => ?_
      obtain rfl := Option.some.inj hfirst
      exact hplain
  | afterDashes => exact h.terminated command [arg]

/-! ## The options of the program -/

theorem IsPlainArg.ofArg_eq {arg : String} (h : IsPlainArg arg) :
    Lexeme.ofArg arg = .positional := by
  rcases h with h | rfl
  · unfold Lexeme.ofArg
    cases hcs : arg.toList with
    | nil => rfl
    | cons c cs =>
        have hc : c ≠ '-' := by
          rintro rfl
          rw [hcs] at h
          exact h rfl
        simp [hc]
  · rfl

/-- Arguments of which the first is no option are left alone. -/
theorem takeFlags_plain {args : List String} (h : ∀ arg, args.head? = some arg → IsPlainArg arg)
    (flags : List Flag) (set : Settings) : takeFlags flags set args = (set, .ok args) := by
  cases args with
  | nil => rfl
  | cons arg args => rw [takeFlags, (h arg rfl).ofArg_eq]

theorem takeFlags_terminated (flags : List Flag) (set : Settings) (args : List String) :
    takeFlags flags set ("--" :: args) = (set, .ok args) := rfl

/-- A command whose arguments set no option is given what is left of them. -/
theorem parse_flags {command : Command} {args rest : List String}
    (h : takeFlags (commandFlags command) [] args = ([], .ok rest)) :
    flags.parse (command.name :: args) = .act command ⟨false, none, rest⟩ := by
  have hname : ∀ arg, (command.name :: args).head? = some arg → IsPlainArg arg := by
    rintro arg hfirst
    obtain rfl := Option.some.inj hfirst
    cases command <;> exact .inl (by decide)
  have hfind : Command.all.find? (·.name = command.name) = some command := by
    cases command <;> decide
  have hcommand : afterName (commandFlags command) args (fun set rest =>
      .act command ⟨false, depthFlag.integer? set, rest⟩) = .act command ⟨false, none, rest⟩ := by
    rw [afterName, h]
    cases command <;> rfl
  have htop : atName false (command.name :: args) = .act command ⟨false, none, rest⟩ := by
    rw [atName, hfind]
    exact hcommand
  simp only [flags, takeFlags_plain hname]
  exact htop

/-- The options of the program are taken apart as is relied on. -/
theorem documented_flags : flags.Documented where
  positional _ _ h := parse_flags (takeFlags_plain h _ [])
  terminated _ args := parse_flags (takeFlags_terminated _ [] args)

end HamScript.Cli
