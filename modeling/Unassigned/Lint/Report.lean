import Unassigned.Json.Basic
import Unassigned.Lint.Linter

/-!
# `Lint.Report` — the outcome of a run over several files

Each file of a run gets a report: its defects, or the reason why it has none. A file that cannot be read,
parsed or scanned does not affect the reports of the others. The totals of a run count the files and the
defects by severity.
-/

namespace Unassigned

/-- A file of a run: its text, or why it cannot be read. -/
structure InputFile where
  name : String
  text : Except String String

/-- The outcome for one file. -/
structure FileReport where
  name : String
  outcome : Except LintError (List Defect)

namespace FileReport

/-- The defects of a file; none if there is an error instead. -/
def defects (report : FileReport) : List Defect :=
  report.outcome.toOption.getD []

/-- Why the file could not be checked. -/
def error? (report : FileReport) : Option LintError :=
  match report.outcome with
  | .error e => some e
  | .ok _ => none

end FileReport

namespace Linter

variable (linter : Linter)

/-- The defects of a file of a run. -/
def lintFile (file : InputFile) : Except LintError (List Defect) :=
  match file.text with
  | .error reason => .error (.unreadable reason)
  | .ok source => linter.lintSource file.name source

/-- The report on a file of a run. -/
def report (file : InputFile) : Except LintError FileReport :=
  match linter.lintFile file with
  | .ok defects => .ok ⟨file.name, .ok defects⟩
  | .error e => if e.endsRun then .error e else .ok ⟨file.name, .error e⟩

/-- The reports on the files of a run, in order. -/
def lintFiles (files : List InputFile) : Except LintError (List FileReport) :=
  files.mapM linter.report

end Linter

/-- The totals of a run. -/
structure Summary where
  totalFiles : Nat
  filesWithDefects : Nat
  errors : Nat
  warnings : Nat
  notices : Nat
  unparsedFiles : Nat
  deriving DecidableEq, Repr

namespace Summary

/-- The number of defects of a severity in some reports. -/
def count (reports : List FileReport) (severity : Severity) : Nat :=
  (reports.flatMap FileReport.defects).countP fun defect => defect.severity = severity

/-- The totals of some reports. -/
def ofReports (reports : List FileReport) : Summary where
  totalFiles := reports.countP fun report => report.error?.isNone
  filesWithDefects := reports.countP fun report => !report.defects.isEmpty
  errors := count reports .error
  warnings := count reports .warning
  notices := count reports .notice
  unparsedFiles := reports.countP fun report => report.error?.isSome

/-- There is a defect worse than a notice. -/
def isFailure (summary : Summary) : Bool :=
  summary.errors + summary.warnings > 0

/-- The totals as JSON. -/
def toJson (summary : Summary) : Json :=
  .obj [
    ("total_files", .int summary.totalFiles),
    ("files_with_defects", .int summary.filesWithDefects),
    ("errors", .int summary.errors),
    ("warnings", .int summary.warnings),
    ("notices", .int summary.notices),
    ("unparsed_files", .int summary.unparsedFiles)]

/-- The totals as lines of text. -/
def lines (summary : Summary) : List String := [
  "Total files:          " ++ toString summary.totalFiles,
  "Files with defects:   " ++ toString summary.filesWithDefects,
  "Errors:               " ++ toString summary.errors,
  "Warnings:             " ++ toString summary.warnings,
  "Notices:              " ++ toString summary.notices]

end Summary

/-- The members of a defect as JSON. -/
def Defect.members (defect : Defect) : List (String × Json) := [
  ("line", .int defect.line),
  ("severity", .str defect.severity.label),
  ("message", .str defect.message),
  ("token", .str defect.token.text)]

/-- A text with blanks in front up to a width. -/
def padLeft (width : Nat) (text : String) : String :=
  String.ofList (List.replicate (width - text.length) ' ') ++ text

/-- A text with blanks behind it up to a width. -/
def padRight (width : Nat) (text : String) : String :=
  text ++ String.ofList (List.replicate (width - text.length) ' ')

/-- A defect as a line of text, with columns for the line number and the severity. -/
def Defect.format (defect : Defect) : String :=
  "    line " ++ padLeft 4 (toString defect.line) ++ ": " ++ padRight 8 defect.severity.label ++ ": "
    ++ defect.message ++ " (" ++ defect.token.text ++ ")"

/-- A report as JSON. -/
def FileReport.toJson (report : FileReport) : Json :=
  let members := [
    ("file", .str report.name),
    ("defects", .arr (report.defects.map fun defect => .obj defect.members))]
  match report.error? with
  | some e => .obj (members ++ [("error", .str e.message)])
  | none => .obj members

end Unassigned
