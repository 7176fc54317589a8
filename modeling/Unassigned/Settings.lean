import Unassigned.Files.Tree
import Unassigned.Json.Parser

/-!
# `Settings` — where the settings of a run come from

Settings start from defaults. A configuration file changes some of them, environment variables change them
again, and the options of a command come last. A value of the wrong type in the file is ignored, and so is
an unknown key. A file that cannot be read or is malformed is passed over. All that is noted. What does stop
a run is a file that is no UTF-8, or JSON past the limits of the reader.

A list in a configuration file may hold any values; that they are texts shows when they are used.
-/

namespace Unassigned

/-- The settings of a run. -/
structure Settings where
  reportLevel : String := "notice"
  checkFileScope : Bool := true
  globalVars : List Json := []
  initByReference : List Json := []
  functionSignatures : List Json := []
  extensions : List Json := [.str ".php"]
  exclude : List Json := []
  color : String := "auto"

/-- A setting that a file or the environment can give. -/
inductive SettingKey where
  | reportLevel
  | checkFileScope
  | globalVars
  | initByReference
  | functionSignatures
  | extensions
  | exclude
  | color
  deriving DecidableEq, Repr

namespace SettingKey

/-- All settings, in the order in which the environment is asked for them. -/
def all : List SettingKey :=
  [reportLevel, checkFileScope, globalVars, initByReference, functionSignatures, extensions, exclude,
    color]

/-- The key of a setting in a configuration file. -/
def label : SettingKey → String
  | .reportLevel => "report_level"
  | .checkFileScope => "check_global_scope"
  | .globalVars => "global_vars"
  | .initByReference => "init_by_reference"
  | .functionSignatures => "function_signatures"
  | .extensions => "extensions"
  | .exclude => "exclude"
  | .color => "color"

/-- The setting of a key. -/
def ofLabel? (label : String) : Option SettingKey :=
  all.find? fun key => key.label = label

/-- The environment variable of a setting. -/
def environmentName (key : SettingKey) : String :=
  "VARAUDIT_LINT_" ++ key.label.toUpper

end SettingKey

/-- What is noted while settings are read. -/
inductive SettingNotice where
  | ignoredKey (key path : String)
  | fileNotFound (path : String)
  | fileNotLoaded (path : String)
  | continuing
  | invalidVariable (name value : String)
  | valueKept (value : Bool)
  deriving DecidableEq, Repr

/-- Why settings cannot be read. -/
inductive SettingsError where
  | undecodable (fault : Text.Utf8Fault)
  | tooManyDigits (count : Nat)
  | tooDeep (container : JsonContainer)
  deriving DecidableEq, Repr

namespace SettingsError

/-- The name of a kind of error. -/
def label : SettingsError → String
  | .undecodable _ => "UnicodeDecodeError"
  | .tooManyDigits _ => "ValueError"
  | .tooDeep _ => "RecursionError"

/-- The wording of an error. -/
def message : SettingsError → String
  | .undecodable fault => fault.message
  | .tooManyDigits count => (JsonError.tooManyDigits count).message
  | .tooDeep container => (JsonError.tooDeep container).message

end SettingsError

/-- The texts that switch a setting on. -/
def onTexts : List String := ["1", "true", "yes", "on"]

/-- The texts that switch a setting off. -/
def offTexts : List String := ["0", "false", "no", "off"]

/-- The truth value that a text stands for. -/
def switchValue? (text : String) : Option Bool :=
  let key := Text.lower (Text.strip text)
  if onTexts.contains key then some true
  else if offTexts.contains key then some false
  else none

/-- The wording of the error about a text that stands for no truth value. -/
def switchMessage : String :=
  "expected one of " ++ ", ".intercalate (onTexts ++ offTexts)

/-- The wording of a notice. -/
def SettingNotice.message : SettingNotice → String
  | .ignoredKey key path => "Ignoring config key lint." ++ key ++ " in " ++ path
  | .fileNotFound path => "Config file " ++ path ++ " not found, using defaults"
  | .fileNotLoaded path => "Could not load config file from " ++ path
  | .continuing => "Continuing with default configuration"
  | .invalidVariable name value =>
    "Invalid value for environment variable " ++ name ++ ": '" ++ value ++ "' - " ++ switchMessage
  | .valueKept value => "Using default value: " ++ (if value then "True" else "False")

namespace Settings

variable (settings : Settings)

/-! ## From a file -/

/-- Sets a setting to a value, if that has the right type. -/
def set? : SettingKey → Json → Option Settings
  | .reportLevel, .str value => some { settings with reportLevel := value }
  | .checkFileScope, .bool value => some { settings with checkFileScope := value }
  | .globalVars, .arr values => some { settings with globalVars := values }
  | .initByReference, .arr values => some { settings with initByReference := values }
  | .functionSignatures, .arr values => some { settings with functionSignatures := values }
  | .extensions, .arr values => some { settings with extensions := values }
  | .exclude, .arr values => some { settings with exclude := values }
  | .color, .str value => some { settings with color := value }
  | _, _ => none

/-- Sets the settings that the members of an object give; the others of its keys are noted. -/
def setMembers (path : String) (members : List (String × Json)) :
    Settings × List SettingNotice :=
  members.foldl
    (fun (settings, notices) (label, value) =>
      match (SettingKey.ofLabel? label).bind fun key => settings.set? key value with
      | some changed => (changed, notices)
      | none => (settings, notices ++ [.ignoredKey label path]))
    (settings, [])

/-- The file that is read when no other is named. -/
def defaultFile : String := ".varaudit/config.json"

/-- The value that a node holds as JSON; none if it is a directory or malformed. -/
def loadJson : Node → Except SettingsError (Option Json)
  | .dir _ => .ok none
  | .file content =>
    match Text.readUtf8 content.toList with
    | .error fault => .error (.undecodable fault)
    | .ok text =>
      match Json.parse (String.ofList text) with
      | .ok value => .ok (some value)
      | .error .malformed => .ok none
      | .error (.tooManyDigits count) => .error (.tooManyDigits count)
      | .error (.tooDeep container) => .error (.tooDeep container)

/-- Reads a configuration file: the one at a path if that is not empty, else the default one. -/
def readFile (tree : Node) (file : Option String) :
    Except SettingsError (Settings × List SettingNotice) :=
  let named := file.filter (· != "")
  let path := Path.ofText (named.getD defaultFile)
  let passedOver := (settings, [.fileNotLoaded path.toText, .continuing])
  match tree.lookup path with
  | .error .missing => .ok (settings, if named.isSome then [.fileNotFound path.toText] else [])
  | .error .tooLong => .ok passedOver
  | .ok node =>
    (loadJson node).map fun value =>
      match value with
      | none => passedOver
      | some value =>
        match (value.get? "lint").bind Json.obj? with
        | none => (settings, [])
        | some members => settings.setMembers path.toText members

/-! ## From the environment -/

/-- The parts of a list in an environment variable. -/
def listParts (text : String) : List Json :=
  (((Text.splitAt ';' text.toList).map Text.stripChars).filter fun part => !part.isEmpty).map
    fun part => .str (String.ofList part)

/-- Sets a setting to the value of its environment variable. -/
def setVariable (key : SettingKey) (text : String) : Settings × List SettingNotice :=
  match key with
  | .reportLevel => ({ settings with reportLevel := text }, [])
  | .color => ({ settings with color := text }, [])
  | .globalVars => ({ settings with globalVars := listParts text }, [])
  | .initByReference => ({ settings with initByReference := listParts text }, [])
  | .functionSignatures => ({ settings with functionSignatures := listParts text }, [])
  | .extensions => ({ settings with extensions := listParts text }, [])
  | .exclude => ({ settings with exclude := listParts text }, [])
  | .checkFileScope =>
    match switchValue? text with
    | some value => ({ settings with checkFileScope := value }, [])
    | none => (settings,
        [.invalidVariable key.environmentName text, .valueKept settings.checkFileScope])

/-- Sets the settings that environment variables give. -/
def readEnvironment (env : List (String × String)) : Settings × List SettingNotice :=
  SettingKey.all.foldl
    (fun (settings, notices) key =>
      match env.lookup key.environmentName with
      | none => (settings, notices)
      | some text =>
        let (changed, more) := settings.setVariable key text
        (changed, notices ++ more))
    (settings, [])

/-- The settings of a file and the environment. -/
def load (tree : Node) (env : List (String × String)) (file : Option String) :
    Except SettingsError (Settings × List SettingNotice) :=
  (({} : Settings).readFile tree file).map fun (settings, notices) =>
    let (settings, more) := settings.readEnvironment env
    (settings, notices ++ more)

end Settings

/-! ## From options -/

/-- The settings that the options of a command give. -/
structure SettingOptions where
  reportLevel : String := ""
  noFileScope : Bool := false
  globalVars : List String := []
  initByReference : List String := []
  signatures : List String := []
  exclude : List String := []
  color : String := ""

namespace Settings

variable (settings : Settings)

/-- Applies options: a text that is not empty replaces a setting, a list adds to one. -/
def apply (options : SettingOptions) : Settings where
  reportLevel := if options.reportLevel = "" then settings.reportLevel else options.reportLevel
  checkFileScope := settings.checkFileScope && !options.noFileScope
  globalVars := settings.globalVars ++ options.globalVars.map .str
  initByReference := settings.initByReference ++ options.initByReference.map .str
  functionSignatures := settings.functionSignatures ++ options.signatures.map .str
  extensions := settings.extensions
  exclude := settings.exclude ++ options.exclude.map .str
  color := if options.color = "" then settings.color else options.color

/-- The settings as JSON. -/
def toJson : Json :=
  .obj [
    (SettingKey.reportLevel.label, .str settings.reportLevel),
    (SettingKey.checkFileScope.label, .bool settings.checkFileScope),
    (SettingKey.globalVars.label, .arr settings.globalVars),
    (SettingKey.initByReference.label, .arr settings.initByReference),
    (SettingKey.functionSignatures.label, .arr settings.functionSignatures),
    (SettingKey.extensions.label, .arr settings.extensions),
    (SettingKey.exclude.label, .arr settings.exclude),
    (SettingKey.color.label, .str settings.color)]

end Settings

end Unassigned
