import Unassigned.Command.Arguments
import Unassigned.Command.Terminal
import Unassigned.Settings.Use

/-!
# `Command.Workspace` — what a command sees and what it produces

A command is a function of its arguments and of the workspace: the files below the working directory, the
environment, and the repositories. It produces two texts and an exit status. A failure that is no fault of
the user's is a crash, of which a record is kept; where no record can be kept, the run is aborted without a
word.
-/

namespace Unassigned

/-- What a command sees. -/
structure Workspace where
  tree : Node := .dir []
  env : List (String × String) := []
  /-- The histories of the repositories, by their paths. -/
  repositories : List (Path × History) := []

/-- What a command produces. -/
structure Outcome where
  exitCode : Nat := 0
  stdout : String := ""
  stderr : String := ""
  /-- A record of a crash is to be kept. -/
  crashed : Bool := false

/-- A failure that is no fault of the user's. -/
inductive Crash where
  | lint (e : LintError)
  | noSuchRepository (path : String)
  | repositoryPathTooLong (path : String)
  | settings (e : SettingsError)
  | misuse (e : Misuse)
  | files (e : FilesError)

namespace Crash

/-- The name of a kind of failure. -/
def label : Crash → String
  | .lint e => e.label
  | .noSuchRepository _ => "GitError"
  | .repositoryPathTooLong _ => "OSError"
  | .settings e => e.label
  | .misuse e => e.label
  | .files e => e.label

/-- The wording of a failure. -/
def message : Crash → String
  | .lint e => e.message
  | .noSuchRepository path => "Repository not found at " ++ path
  | .repositoryPathTooLong path =>
    path ++ ": failed to resolve path '" ++ path ++ "': File name too long"
  | .settings e => e.message
  | .misuse e => e.message
  | .files e => e.message

end Crash

/-- Why a command does not do its work. -/
inductive CommandError where
  /-- The arguments are wrong. -/
  | usage (e : UsageError)
  /-- What the arguments ask for is wrong. -/
  | refused (message : String)
  | crash (command : String) (e : Crash)
  /-- The run ends without a word. -/
  | aborted

/-- The error of a command whose settings do not do. -/
def UseError.commandError (command : String) : UseError → CommandError
  | .refused e => .refused e.message
  | .misuse e => .crash command (.misuse e)

/-- The work of a command. -/
abbrev CommandResult := Except CommandError

namespace Workspace

variable (ws : Workspace)

/-! ## Records -/

/-- The directory of the program's own files. -/
def ownDirectory : String := ".varaudit"

/-- The file that records crashes. -/
def recordFile : String := ownDirectory ++ "/error.log"

/-- A record of a crash can be kept. -/
def keepsRecords : Bool :=
  (ws.tree.atText? ownDirectory).all Node.isDir
    && (ws.tree.atText? recordFile).all fun node => !node.isDir

/-- The outcome of a command that does not do its work. -/
def errorOutcome : CommandError → Outcome
  | .usage e => { exitCode := 2, stderr := Terminal.message e.message }
  | .refused message => { exitCode := 1, stderr := Terminal.message message }
  | .crash command e =>
    if ws.keepsRecords then {
      exitCode := 1
      stderr := Terminal.message ("Internal error in '" ++ command ++ "': " ++ e.label ++ ": "
        ++ e.message ++ "\nDetails were appended to " ++ recordFile)
      crashed := true }
    else { exitCode := 1 }
  | .aborted => { exitCode := 1 }

/-- The outcome of a command. -/
def outcome (result : CommandResult Outcome) : Outcome :=
  match result with
  | .ok outcome => outcome
  | .error e => ws.errorOutcome e

/-! ## Paths in arguments -/

/-- What a path given to a command names. A path with a null character aborts the run. -/
def given (path : String) : CommandResult (Option Node) :=
  if path.contains '\x00' then .error .aborted else .ok (ws.tree.atText? path)

/-- A path that is given to a command exists. -/
def checkExists (path : String) : CommandResult Unit := do
  if (← ws.given path).isNone then throw (.usage (.noSuchPath path))

/-- A path that is given for a file is not that of a directory. -/
def checkNotDir (path : String) : CommandResult Unit := do
  if (← ws.given path).any Node.isDir then throw (.usage (.notAFile path))

/-- A path that is given for a directory is not that of a file. -/
def checkNotFile (path : String) : CommandResult Unit := do
  if (← ws.given path).any fun node => !node.isDir then throw (.usage (.notADirectory path))

/-! ## Repositories -/

/-- The history of the repository that a path is in. -/
def history (text : String) : Except Crash History :=
  let path := Path.ofText text
  match ws.tree.lookup path with
  | .error .tooLong => .error (.repositoryPathTooLong text)
  | .error .missing => .error (.noSuchRepository text)
  | .ok _ =>
    match path.folded.withAncestors.findSome? fun directory => ws.repositories.lookup directory with
    | some history => .ok history
    | none => .error (.noSuchRepository text)

end Workspace

end Unassigned
