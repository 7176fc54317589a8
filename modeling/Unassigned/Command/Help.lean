import Unassigned.Command.Workspace
import Unassigned.Lint.Report

/-!
# `Command.Help` — the help text of the program

The commands stand in a table below a rule, both as wide as the terminal. A description that does not fit
beside the name of its command goes on in the next line. The text after the table has a fixed form.
-/

namespace Unassigned

/-- The columns of a terminal about which the environment does not tell. -/
def defaultColumns : Nat := 80

/-- The columns of the terminal: the environment tells them by digits, and none is no answer. -/
def Workspace.columns (ws : Workspace) : Nat :=
  match ws.env.lookup "COLUMNS" with
  | none => defaultColumns
  | some text =>
    match text.toList.mapM Text.digitValue? with
    | none => defaultColumns
    | some digits =>
      let columns := digits.foldl (10 * · + ·) 0
      if columns = 0 then defaultColumns else columns

namespace Help

/-! ## Wrapping -/

/-- Cuts a word into pieces of at most `width` characters, the last one first. -/
def chop (width : Nat) (pieces : List (List Char)) (word : List Char) : List (List Char) :=
  if word.length ≤ max 1 width then word :: pieces
  else chop width (word.take (max 1 width) :: pieces) (word.drop (max 1 width))
termination_by word.length
decreasing_by (rw [List.length_drop]; omega)

/-- Adds a word to lines, of which the last comes first. It stays in the line if it fits, and a word that is
    too long for any line is cut. -/
def addWord (width : Nat) (lines : List (List Char)) (word : List Char) : List (List Char) :=
  match lines with
  | [] => chop width [] word
  | line :: others =>
    if line.length + 1 + word.length ≤ width then (line ++ ' ' :: word) :: others
    else chop width (line :: others) word

/-- A text in lines of at most `width` characters, cut at blanks where that can be. -/
def wrap (width : Nat) (text : String) : List String :=
  (((Text.splitAt ' ' text.toList).foldl (addWord width) []).reverse).map String.ofList

/-! ## The table of commands -/

/-- The columns of the name of a command, with the gap after it. -/
def nameColumns : Nat := 16

/-- The columns between a description and the border. -/
def gap : Nat := 2

/-- The rule above the commands. -/
def rule (columns : Nat) : String :=
  let left := (columns - 8) / 2 - 1
  String.ofList (List.replicate left '─') ++ " COMMANDS "
    ++ String.ofList (List.replicate (columns - left - 10) '─')

/-- The rows for a command. -/
def rows (columns : Nat) (name description : String) : List String :=
  let width := min (description.length + gap) (columns - nameColumns)
  (wrap (width - gap) description).zipIdx.map fun (line, i) =>
    padRight nameColumns (if i = 0 then name else "") ++ padRight width line

/-- What is shown when help is asked for. -/
def text (columns : Nat) : String :=
  String.join <| List.map (· ++ "\n") <|
    ["",
      rule columns,
      "",
      "ANALYSIS",
      "Detect reads of possibly-uninitialized variables"]
    ++ rows columns "lint" "Find reads of variables that may be uninitialized in PHP sources"
    ++ ["",
      "REFERENCE",
      "Inspect the tables the analysis relies on"]
    ++ rows columns "signatures" "Print which arguments of the named functions are passed by reference"
    ++ ["",
      "For detailed options: varaudit <command> --help",
      "Usage: cli [OPTIONS] COMMAND [ARGS]...",
      "",
      "  varaudit - find possibly-uninitialized variables in PHP code.",
      "",
      "  QUICK START:",
      "    varaudit lint                   # Lint every *.php below .",
      "    varaudit lint src -v            # Lint src/, print totals",
      "",
      "  Logging: VARAUDIT_LOG_LEVEL=DEBUG, VARAUDIT_LOG_JSON=1",
      "",
      "Options:",
      "  --version   Show the version and exit.",
      "  -h, --help  Show this message and exit."]

end Help

end Unassigned
