import Unassigned.Command.Workspace
import Unassigned.Lint.Report

/-!
# `Command.Lint` — the command that checks files

The files come from the working directory or from a committed revision. The reports are printed as text or
as JSON, and the exit status tells whether there is a defect worse than a notice.
-/

namespace Unassigned

/-- An option of the command. -/
inductive LintOption where
  | reportLevel
  | config
  | noGlobalScope
  | globalVar
  | initByReference
  | signature
  | exclude
  | gitRev
  | repo
  | color
  | format
  | jobs
  | verbose
  | help
  deriving DecidableEq, Repr

/-- A request to check files. -/
structure LintRequest where
  paths : List String := []
  config : Option String := none
  options : SettingOptions := {}
  /-- The revision to check; the working directory if it is empty. -/
  revision : String := ""
  repository : String := "."
  asJson : Bool := false
  verbose : Bool := false

namespace LintRequest

/-! ## Arguments -/

/-- The options of the command. -/
def specs : List (OptionSpec LintOption) := [
  { key := .reportLevel, long := "--report-level" },
  { key := .config, long := "--config" },
  { key := .noGlobalScope, long := "--no-global-scope", takesValue := false },
  { key := .globalVar, long := "--global-var" },
  { key := .initByReference, long := "--init-by-reference" },
  { key := .signature, long := "--signature" },
  { key := .exclude, long := "--exclude" },
  { key := .gitRev, long := "--git-rev" },
  { key := .repo, long := "--repo" },
  { key := .color, long := "--color" },
  { key := .format, long := "--format" },
  { key := .jobs, long := "--jobs", short := some 'j' },
  { key := .verbose, long := "--verbose", short := some 'v', takesValue := false },
  { key := .help, long := "--help", takesValue := false }]

/-- The value of an option that has to be one of some texts. -/
def choice (arguments : Arguments LintOption) (key : LintOption) (name : String)
    (choices : List String) : CommandResult (Option String) :=
  match arguments.value? key with
  | none => .ok none
  | some value =>
    if choices.contains value then .ok (some value) else .error (.usage (.badChoice name value))

/-- The number of workers has to be a positive integer. -/
def checkJobs (arguments : Arguments LintOption) : CommandResult Unit :=
  match arguments.value? .jobs with
  | none => .ok ()
  | some value =>
    match Text.integer? value.toList with
    | some n => if 1 ≤ n then .ok () else .error (.usage (.badNumber "--jobs" value))
    | none => .error (.usage (.badNumber "--jobs" value))

/-- The request that arguments make in a workspace. -/
def ofArguments (ws : Workspace) (arguments : Arguments LintOption) :
    CommandResult LintRequest := do
  arguments.operands.forM ws.checkExists
  let reportLevel ← choice arguments .reportLevel "--report-level"
    ["error", "errors", "warning", "warnings", "notice", "notices"]
  let config := arguments.value? .config
  config.forM ws.checkNotDir
  let repository := (arguments.value? .repo).getD "."
  ws.checkNotFile repository
  let color ← choice arguments .color "--color" ["auto", "always", "never"]
  let format ← choice arguments .format "--format" ["text", "json"]
  checkJobs arguments
  return {
    paths := arguments.operands
    config
    options := {
      reportLevel := reportLevel.getD ""
      noFileScope := arguments.has .noGlobalScope
      globalVars := arguments.values .globalVar
      initByReference := arguments.values .initByReference
      signatures := arguments.values .signature
      exclude := arguments.values .exclude
      color := color.getD "" }
    revision := (arguments.value? .gitRev).getD ""
    repository
    asJson := format == some "json"
    verbose := arguments.has .verbose }

/-! ## The files of a run -/

/-- The files to check, and the id of the commit if they come from one. -/
structure Source where
  files : List InputFile
  commit : Option String := none

/-- What goes wrong in this command. -/
def crashOn {ε α : Type} (cause : ε → Crash) (result : Except ε α) : CommandResult α :=
  result.mapError fun e => .crash "lint" (cause e)

/-- The files of a revision. The repository is looked for first, then the exclude list is used, and then
    the revision is looked up. -/
def committedSource (request : LintRequest) (ws : Workspace) (settings : Settings) :
    CommandResult Source := do
  if !request.paths.isEmpty then throw (.usage .pathsWithRevision)
  let history ← crashOn id (ws.history request.repository)
  let filter ← crashOn .misuse settings.fileFilter
  let commit ← (history.resolve request.revision).mapError fun e => .refused e.message
  let names ← crashOn .misuse (settings.commitFiles filter commit)
  return {
    files := names.map fun name => ⟨name, (commit.text name).mapError HistoryError.message⟩
    commit := some commit.id }

/-- The files of the working directory. -/
def workingSource (request : LintRequest) (ws : Workspace) (settings : Settings) :
    CommandResult Source := do
  let names ← crashOn .files (settings.select ws.tree request.paths)
  return {
    files := names.map fun name =>
      ⟨name, match ws.tree.text? name with
        | some text => .ok text
        | none => .error ("[Errno 2] No such file or directory: " ++ Text.quoted name)⟩ }

/-- The files that a request asks for. -/
def source (request : LintRequest) (ws : Workspace) (settings : Settings) : CommandResult Source :=
  if request.revision = "" then request.workingSource ws settings
  else request.committedSource ws settings

/-! ## Output -/

/-- The reports and totals as JSON. -/
def jsonOutput (reports : List FileReport) (commit : Option String) : String :=
  let shown := reports.filter fun report => !report.defects.isEmpty || report.error?.isSome
  let members := [
    ("files", .arr (shown.map FileReport.toJson)),
    ("summary", (Summary.ofReports reports).toJson)]
  let revision := match commit with
    | some id => [("revision", .str id)]
    | none => []
  (Json.obj (members ++ revision)).pretty ++ "\n"

/-- The text for one report. -/
def reportText (colored : Bool) (report : FileReport) : String :=
  match report.outcome with
  | .error e => Terminal.render none ("Can't parse file '" ++ report.name ++ "': " ++ e.message)
  | .ok [] => ""
  | .ok defects =>
    Terminal.render none ("File: " ++ report.name)
      ++ String.join (defects.map fun defect =>
        Terminal.render (if colored then some defect.severity.color else none) defect.format)

/-- The reports and totals as text. -/
def textOutput (colored verbose : Bool) (reports : List FileReport) : String :=
  (if reports.isEmpty then Terminal.render none "WARNING: No files to lint" else "")
    ++ String.join (reports.map (reportText colored))
    ++ (if verbose then
        String.join ((Summary.ofReports reports).lines.map (Terminal.render none))
      else "")

/-- Lines are colored if that is asked for, unless the environment forbids it. -/
def isColored (ws : Workspace) (settings : Settings) : Bool :=
  settings.color == "always" && (ws.env.lookup "NO_COLOR").all (· == "")
    && !((ws.env.lookup "TERM").any fun term => ["dumb", "unknown"].contains (Text.lower term))

/-! ## The command -/

/-- Carries out a request. -/
def run (request : LintRequest) (ws : Workspace) : CommandResult Outcome := do
  let (loaded, _) ← crashOn .settings (Settings.load ws.tree ws.env request.config)
  let settings := loaded.apply request.options
  let linter ← (settings.linter []).mapError (UseError.commandError "lint")
  let source ← request.source ws settings
  let reports ← crashOn .lint (linter.lintFiles source.files)
  return {
    exitCode := if (Summary.ofReports reports).isFailure then 1 else 0
    stdout :=
      if request.asJson then jsonOutput reports source.commit
      else textOutput (isColored ws settings) request.verbose reports }

/-- What is shown when help is asked for. -/
def helpText : String :=
  "Usage: cli lint [OPTIONS] [PATHS]...\n\n"
    ++ "  Find reads of variables that may be uninitialized in PHP sources.\n\nOptions:\n"
    ++ String.join (specs.map fun spec => "  " ++ spec.long ++ "\n")

/-- Runs the command with arguments. -/
def runArguments (ws : Workspace) (arguments : List String) : CommandResult Outcome := do
  let arguments ← (Arguments.read specs true arguments).mapError .usage
  if arguments.has .help then return { stdout := helpText }
  let request ← ofArguments ws arguments
  request.run ws

end LintRequest

end Unassigned
