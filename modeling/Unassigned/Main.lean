import Unassigned.Command.Run

/-!
# `Main` — the command line

The files of the working directory are listed on standard input, one path a line, so that
`find . -type f | unassigned lint src` checks the files below `src`. This module only reads and writes;
what a command does is decided in `Program.run`.
-/

namespace Unassigned

/-- The lines of a stream. -/
partial def readLines (input : IO.FS.Stream) (lines : List String) : IO (List String) := do
  let line ← input.getLine
  if line.isEmpty then return lines.reverse
  readLines input (String.ofList (line.toList.filter (· != '\n')) :: lines)

/-- The tree of the files with these names. -/
def readTree (names : List String) : IO Node := do
  let mut entries : List (String × Node) := []
  for name in names do
    let content ← IO.FS.readBinFile name
    entries := Node.addFile content (Path.ofText name).names entries
  return .dir entries

/-- The environment variables that a run asks for. -/
def readEnvironment : IO (List (String × String)) := do
  let mut env : List (String × String) := []
  for name in ["COLUMNS", "NO_COLOR", "TERM"] ++ SettingKey.all.map SettingKey.environmentName do
    if let some value ← IO.getEnv name then
      env := env ++ [(name, value)]
  return env

/-- Keeps a record of a crash. -/
def recordCrash (message : String) : IO Unit := do
  IO.FS.createDirAll Workspace.ownDirectory
  let log ← IO.FS.Handle.mk Workspace.recordFile .append
  log.putStr message

end Unassigned

open Unassigned

/-- Runs the program on the command line. -/
def main (arguments : List String) : IO UInt32 := do
  let tree ← readTree (← readLines (← IO.getStdin) [])
  let outcome := Program.run { tree, env := ← readEnvironment } arguments
  (← IO.getStdout).putStr outcome.stdout
  (← IO.getStderr).putStr outcome.stderr
  if outcome.crashed then recordCrash outcome.stderr
  return outcome.exitCode.toUInt32
