import Unassigned.Scan.Run

/-!
# `Lint.Linter` — a configured check of files

A linter is made from settings that may be wrong: the name of a level, the names of reports, signatures in
their written form. Once it is made, it finds the defects of any source at its level.
-/

namespace Unassigned

/-- The settings of a linter, as they are written. -/
structure LintSettings where
  level : String := "notice"
  checkFileScope : Bool := true
  /-- Names that are always set in the file scope, with or without the dollar sign. -/
  globalVars : List String := []
  /-- Signatures given by positions. -/
  initByReference : List String := []
  /-- Signatures in either form. -/
  functionSignatures : List String := []

/-- Why settings are refused. -/
inductive SetupError where
  | unknownLevel (name : String)
  | unknownReports (names : List String)
  | signature (e : SignatureError)
  deriving DecidableEq, Repr

/-- The wording of an error. -/
def SetupError.message : SetupError → String
  | .unknownLevel name => Severity.unknownMessage name
  | .unknownReports names => "Unknown report id(s): " ++ ", ".intercalate names
  | .signature e => e.message

/-- A check of files, ready to use. -/
structure Linter where
  level : Severity
  checkFileScope : Bool
  knownGlobals : List String
  configured : List (String × Signature)

/-- The name of the one report there is. -/
def reportName : String := "lint-uninitialized-vars"

/-- A configured name with its dollar sign. -/
def globalName (name : String) : String :=
  if name.startsWith "$" then name else "$" ++ name

namespace Linter

/-- The linter of some settings; `only` may ask for reports by name. The level is looked at first, then
    the names of the reports, then the signatures. -/
def ofSettings (settings : LintSettings) (only : List String) : Except SetupError Linter :=
  match Severity.ofName? settings.level with
  | none => .error (.unknownLevel settings.level)
  | some level =>
    match only.filter (· != reportName) with
    | unknown@(_ :: _) => .error (.unknownReports unknown)
    | [] =>
      match configuredSignatures settings.initByReference settings.functionSignatures with
      | .error e => .error (.signature e)
      | .ok configured => .ok {
          level
          checkFileScope := settings.checkFileScope
          knownGlobals := defaultGlobals ++ settings.globalVars.map globalName
          configured }

variable (linter : Linter)

/-- What the scan of a file is given. -/
def context (file : SourceFile) : ScanContext where
  file := file
  signatures := { declared := file.signatures, configured := linter.configured }
  level := linter.level
  checkFileScope := linter.checkFileScope
  knownGlobals := linter.knownGlobals

/-- The defects of a file at the linter's level, in the order in which they were found. -/
def defects (file : SourceFile) : ScanResult (List Defect) :=
  (linter.context file).defects

end Linter

/-- Why a file has no list of defects. -/
inductive LintError where
  | unreadable (reason : String)
  | parse (e : ParseError)
  | scan (e : ScanError)
  deriving DecidableEq, Repr

namespace LintError

/-- The wording of an error. -/
def message : LintError → String
  | .unreadable reason => reason
  | .parse e => e.message
  | .scan e => e.message

/-- The name of a kind of error. -/
def label : LintError → String
  | .unreadable _ => "OSError"
  | .parse e => e.label
  | .scan e => e.label

/-- The error is not one of the file: it ends the whole run. -/
def endsRun : LintError → Bool
  | .parse .tooDeep | .scan .positionOutOfRange => true
  | _ => false

end LintError

/-- The defects of a source text at the linter's level. -/
def Linter.lintSource (linter : Linter) (name source : String) : Except LintError (List Defect) :=
  match SourceFile.ofSource name source with
  | .error e => .error (.parse e)
  | .ok file => (linter.defects file).mapError .scan

end Unassigned
