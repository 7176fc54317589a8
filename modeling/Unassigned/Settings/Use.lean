import Unassigned.Files.History
import Unassigned.Lint.Linter
import Unassigned.Settings

/-!
# `Settings.Use` — settings at work

The lists of the settings hold values of any type, and where they are used they have to be texts. A list is
used from its front: the texts before the first other value do their work, an error of theirs included, and
only then that value is a misuse. An extension is compared with a name only if none before it has matched,
so what follows a match may be anything.
-/

namespace Unassigned

/-! ## Misuse -/

/-- A value that is no text and is used as one. -/
inductive Misuse where
  /-- A text has an operation that the value has not. -/
  | noOperation (value : Json) (operation : String)
  /-- A text is searched, and the value holds nothing. -/
  | notSearchable (value : Json)
  /-- A text is compared with a pattern. -/
  | notComparable (value : Json)

namespace Misuse

/-- The name of a value's type. -/
def typeName : Json → String
  | .null => "NoneType"
  | .bool _ => "bool"
  | .int _ => "int"
  | .real _ => "float"
  | .str _ => "str"
  | .arr _ => "list"
  | .obj _ => "dict"

/-- The name of a kind of misuse. -/
def label : Misuse → String
  | .noOperation _ _ => "AttributeError"
  | .notSearchable _ => "TypeError"
  | .notComparable _ => "TypeError"

/-- The wording of a misuse. -/
def message : Misuse → String
  | .noOperation value operation =>
    "'" ++ typeName value ++ "' object has no attribute '" ++ operation ++ "'"
  | .notSearchable value => "argument of type '" ++ typeName value ++ "' is not iterable"
  | .notComparable value => "expected string or bytes-like object, got '" ++ typeName value ++ "'"

/-- A value in place of a name. -/
def asName (value : Json) : Misuse :=
  .noOperation value "startswith"

/-- A value in place of a signature given by positions. -/
def asPositions (value : Json) : Misuse :=
  .noOperation value "split"

/-- The value has the bracket that tells a prototype among its elements or keys. -/
def hasBracket : Json → Bool
  | .arr elements => elements.any fun element => element.str? == some "("
  | .obj members => (members.lookup "(").isSome
  | _ => false

/-- A value in place of a signature in either form: it is searched for a bracket and read as what that
    tells. -/
def asSignature (value : Json) : Misuse :=
  match value with
  | .arr _ | .obj _ => if hasBracket value then .notComparable value else asPositions value
  | _ => .notSearchable value

/-- A value in place of an extension. -/
def asExtension (value : Json) : Misuse :=
  .noOperation value "lower"

end Misuse

/-- The texts at the front of a list, and the misuse that ends them before the list does. -/
structure LeadingTexts where
  texts : List String
  misuse : Option Misuse := none

/-- The texts at the front of a list; `wrong` is the misuse of a value in it. -/
def LeadingTexts.ofValues (wrong : Json → Misuse) : List Json → LeadingTexts
  | [] => ⟨[], none⟩
  | .str text :: rest =>
    let others := ofValues wrong rest
    { others with texts := text :: others.texts }
  | value :: _ => ⟨[], some (wrong value)⟩

/-- Why settings do not do. -/
inductive UseError where
  | refused (e : SetupError)
  | misuse (e : Misuse)

namespace Settings

variable (settings : Settings)

/-! ## Linters -/

/-- The settings of a linter up to the first misuse: lists after it are not used. -/
def lintSettings : LintSettings × Option Misuse :=
  let names := LeadingTexts.ofValues Misuse.asName settings.globalVars
  let positions := LeadingTexts.ofValues Misuse.asPositions settings.initByReference
  let signatures := LeadingTexts.ofValues Misuse.asSignature settings.functionSignatures
  let used : LintSettings := {
    level := settings.reportLevel
    checkFileScope := settings.checkFileScope
    globalVars := names.texts }
  match names.misuse, positions.misuse with
  | some e, _ => (used, some e)
  | none, some e => ({ used with initByReference := positions.texts }, some e)
  | none, none =>
    ({ used with initByReference := positions.texts, functionSignatures := signatures.texts },
      signatures.misuse)

/-- The linter of the settings; `only` may ask for reports by name. -/
def linter (only : List String) : Except UseError Linter :=
  let (used, misuse) := settings.lintSettings
  match Linter.ofSettings used only, misuse with
  | .error e, _ => .error (.refused e)
  | .ok _, some e => .error (.misuse e)
  | .ok linter, none => .ok linter

/-- The signatures of the settings. -/
def signatures : Except UseError (List (String × Signature)) :=
  let (used, misuse) := { settings with globalVars := [] }.lintSettings
  match configuredSignatures used.initByReference used.functionSignatures, misuse with
  | .error e, _ => .error (.refused (.signature e))
  | .ok _, some e => .error (.misuse e)
  | .ok table, none => .ok table

/-! ## Files -/

/-- The filter for the files of a run, with the extensions before the first that is no text. -/
def fileFilter : Except Misuse FileFilter :=
  let exclude := LeadingTexts.ofValues Misuse.notComparable settings.exclude
  match exclude.misuse with
  | some e => .error e
  | none =>
    .ok (FileFilter.ofLists
      (LeadingTexts.ofValues Misuse.asExtension settings.extensions).texts exclude.texts)

/-- An extension that is no text is a misuse if a name is left to compare it with. -/
def checkExtensions (names : List String) : Except Misuse Unit :=
  match (LeadingTexts.ofValues Misuse.asExtension settings.extensions).misuse with
  | some e => if names.isEmpty then .ok () else .error e
  | none => .ok ()

end Settings

/-- Why settings give no files. -/
inductive FilesError where
  | misuse (e : Misuse)
  | selection (e : SelectionError)

namespace FilesError

/-- The name of a kind of error. -/
def label : FilesError → String
  | .misuse e => e.label
  | .selection (.noSuchPath _) => "FileNotFoundError"
  | .selection (.tooLong _) => "OSError"

/-- The wording of an error. -/
def message : FilesError → String
  | .misuse e => e.message
  | .selection e => e.message

end FilesError

namespace Settings

variable (settings : Settings)

/-- The files that some paths name in a working directory. -/
def select (tree : Node) (paths : List String) : Except FilesError (List String) := do
  let filter ← settings.fileFilter.mapError .misuse
  (Node.pathsOrHere paths).forM fun path => do
    discard ((tree.filesAt filter path).mapError FilesError.selection)
    (settings.checkExtensions (tree.passedOver filter path)).mapError .misuse
  (tree.select filter paths).mapError .selection

/-- The files of a commit. -/
def commitFiles (filter : FileFilter) (commit : Commit) : Except Misuse (List String) := do
  settings.checkExtensions ((commit.tree.tracked "").filter fun name => !filter.matchesName name)
  return commit.files filter

end Settings

end Unassigned
