import Unassigned.Command.Workspace
import Unassigned.Signature.Description

/-!
# `Command.Signatures` — the command that describes functions

It prints, for every name, which arguments are passed by reference, as far as the runtime's functions and
the configuration tell.
-/

namespace Unassigned

/-- An option of the command. -/
inductive SignaturesOption where
  | config
  | initByReference
  | signature
  | json
  | help
  deriving DecidableEq, Repr

/-- A request to describe functions. -/
structure SignaturesRequest where
  names : List String
  config : Option String := none
  initByReference : List String := []
  signatures : List String := []
  asJson : Bool := false

namespace SignaturesRequest

/-- The options of the command. -/
def specs : List (OptionSpec SignaturesOption) := [
  { key := .config, long := "--config" },
  { key := .initByReference, long := "--init-by-reference" },
  { key := .signature, long := "--signature" },
  { key := .json, long := "--json", takesValue := false },
  { key := .help, long := "--help", takesValue := false }]

/-- The request that arguments make in a workspace. -/
def ofArguments (ws : Workspace) (arguments : Arguments SignaturesOption) :
    CommandResult SignaturesRequest := do
  if arguments.operands.isEmpty then throw (.usage .missingNames)
  let config := arguments.value? .config
  config.forM ws.checkNotDir
  return {
    names := arguments.operands
    config
    initByReference := arguments.values .initByReference
    signatures := arguments.values .signature
    asJson := arguments.has .json }

/-- Carries out a request. -/
def run (request : SignaturesRequest) (ws : Workspace) : CommandResult Outcome := do
  let (loaded, _) ← (Settings.load ws.tree ws.env request.config).mapError
    fun e => .crash "signatures" (.settings e)
  let settings := loaded.apply {
    initByReference := request.initByReference
    signatures := request.signatures }
  let configured ← settings.signatures.mapError (UseError.commandError "signatures")
  let descriptions := request.names.map (Description.ofName { configured })
  return {
    stdout :=
      if request.asJson then (Json.arr (descriptions.map Description.toJson)).pretty ++ "\n"
      else String.join (descriptions.map fun description =>
        Terminal.render none description.format) }

/-- What is shown when help is asked for. -/
def helpText : String :=
  "Usage: cli signatures [OPTIONS] NAMES...\n\n"
    ++ "  Print which arguments of the named functions are passed by reference.\n\nOptions:\n"
    ++ String.join (specs.map fun spec => "  " ++ spec.long ++ "\n")

/-- Runs the command with arguments. -/
def runArguments (ws : Workspace) (arguments : List String) : CommandResult Outcome := do
  let arguments ← (Arguments.read specs true arguments).mapError .usage
  if arguments.has .help then return { stdout := helpText }
  let request ← ofArguments ws arguments
  request.run ws

end SignaturesRequest

end Unassigned
