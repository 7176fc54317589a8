import Unassigned.Command.Help
import Unassigned.Command.Lint
import Unassigned.Command.Signatures

/-!
# `Command.Run` — the program

The first operand is the name of a command, and all that follows belongs to the command.
-/

namespace Unassigned

/-- An option of the program. -/
inductive ProgramOption where
  | version
  | help
  deriving DecidableEq, Repr

namespace Program

/-- The options of the program. -/
def specs : List (OptionSpec ProgramOption) := [
  { key := .version, long := "--version", takesValue := false },
  { key := .help, long := "--help", short := some 'h', takesValue := false }]

/-- What is shown when the version is asked for. -/
def versionText : String := "varaudit, version 0.4.0\n"

/-- Runs a command by its name. -/
def runCommand (ws : Workspace) (name : String) (arguments : List String) : CommandResult Outcome :=
  match name with
  | "lint" => LintRequest.runArguments ws arguments
  | "signatures" => SignaturesRequest.runArguments ws arguments
  | _ => .error (.usage (.noSuchCommand name))

/-- Runs the program. -/
def runArguments (ws : Workspace) (arguments : List String) : CommandResult Outcome := do
  let arguments ← (Arguments.read specs false arguments).mapError .usage
  match arguments.options, arguments.operands with
  | (.version, _) :: _, _ => return { stdout := versionText }
  | (.help, _) :: _, _ => return { stdout := Help.text ws.columns }
  | [], name :: rest => runCommand ws name rest
  | [], [] => throw (.usage .missingCommand)

/-- The outcome of the program. -/
def run (ws : Workspace) (arguments : List String) : Outcome :=
  ws.outcome (runArguments ws arguments)

end Program

end Unassigned
