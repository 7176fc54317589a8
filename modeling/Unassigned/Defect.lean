import Unassigned.Token.Basic

/-!
# `Defect` — what a scan reports

A defect is a finding about a token, with its severity. Severities are ordered: notice, warning, error. A level is
named by its label or its plural, in any case.
-/

namespace Unassigned

/-- How serious a defect is. -/
inductive Severity where
  | notice
  | warning
  | error
  deriving DecidableEq, Repr

namespace Severity

/-- The place of a level in the order. -/
def rank : Severity → Nat
  | .notice => 1
  | .warning => 2
  | .error => 3

/-- The name of a level. -/
def label : Severity → String
  | .notice => "notice"
  | .warning => "warning"
  | .error => "error"

/-- A level is at least as serious as another. -/
def atLeast (severity level : Severity) : Bool :=
  level.rank ≤ severity.rank

/-- Upper case as far as it is an ASCII letter: of the characters beyond ASCII only the dotless i and the
    long s have such a capital. -/
def capital (c : Char) : Char :=
  if c = 'ı' then 'I' else if c = 'ſ' then 'S' else c.toUpper

/-- The level that a name stands for, one final s apart. -/
def ofName? (name : String) : Option Severity :=
  let key := Text.lowerChars [] (Text.stripChars name.toList)
  let key := if key.getLast? = some 's' then key.dropLast else key
  [notice, warning, error].find? fun level =>
    key.map capital == level.label.toList.map Char.toUpper

/-- The wording of the error about a name that stands for no level. -/
def unknownMessage (name : String) : String :=
  "unknown error reporting level: " ++ name

end Severity

/-- What can be wrong at a token. -/
inductive Finding where
  /-- A variable is read that no statement of its strict scope sets. -/
  | undefined
  /-- A variable is read that may not be set. -/
  | possiblyUndefined
  /-- An element of an array is set that was not set as a whole. -/
  | arrayAutovivification
  /-- A variable is updated that was not set. -/
  | scalarAutovivification
  /-- A statement that consists of a variable alone. -/
  | emptyDeclaration
  /-- From here on other code may have set variables of the scope. -/
  | relaxedMode
  /-- Something that is no variable is passed by reference. -/
  | nonVariableByReference
  /-- A variable of the file scope that is never read. -/
  | valueNotUsed
  deriving DecidableEq, Repr

/-- The wording of a finding. -/
def Finding.message : Finding → String
  | .undefined => "Use of non-defined variable"
  | .possiblyUndefined => "Possible use of non-defined variable"
  | .arrayAutovivification => "Array autovivification"
  | .scalarAutovivification => "Scalar autovivification"
  | .emptyDeclaration => "Empty declaration-like statement"
  | .relaxedMode => "Can't reliable detect var usage from here"
  | .nonVariableByReference => "Possible attemps to pass non-variable by reference"
  | .valueNotUsed => "Value of variable is not used"

/-- A finding about a token. -/
structure Defect where
  token : Token
  severity : Severity
  finding : Finding
  deriving DecidableEq, Repr

namespace Defect

/-- The line of the token. -/
def line (defect : Defect) : Nat :=
  defect.token.line

/-- The wording of the finding. -/
def message (defect : Defect) : String :=
  defect.finding.message

/-- The defects of a list that are at least as serious as a level, in order. -/
def atLevel (level : Severity) (defects : List Defect) : List Defect :=
  defects.filter fun defect => defect.severity.atLeast level

end Defect

end Unassigned
