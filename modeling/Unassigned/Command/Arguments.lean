/-!
# `Command.Arguments` — options and operands

Arguments follow the usual conventions. A long option has two dashes and its value after an equals sign or
in the next argument; a short option has one dash and one letter, its value directly behind it or in the
next argument, and options without value can share a dash. Two dashes alone end the options. Whatever
follows an option that takes a value is its value, even if it looks like an option.
-/

namespace Unassigned

/-- An option of a command. -/
structure OptionSpec (κ : Type) where
  key : κ
  long : String
  short : Option Char := none
  takesValue : Bool := true

/-- What is wrong with the arguments of a command. -/
inductive UsageError where
  | noSuchOption (name : String)
  | valueMissing (name : String)
  | valueNotTaken (name : String)
  | badChoice (name value : String)
  | badNumber (name value : String)
  | noSuchPath (path : String)
  | notAFile (path : String)
  | notADirectory (path : String)
  | noSuchCommand (name : String)
  | missingCommand
  | missingNames
  | pathsWithRevision
  deriving DecidableEq, Repr

/-- The wording of an error. -/
def UsageError.message : UsageError → String
  | .noSuchOption name => "No such option: " ++ name
  | .valueMissing name => "Option '" ++ name ++ "' requires an argument."
  | .valueNotTaken name => "Option '" ++ name ++ "' does not take a value."
  | .badChoice name value => "Invalid value for '" ++ name ++ "': '" ++ value ++ "' is not a choice."
  | .badNumber name value =>
    "Invalid value for '" ++ name ++ "': '" ++ value ++ "' is not a positive integer."
  | .noSuchPath path => "Path '" ++ path ++ "' does not exist."
  | .notAFile path => "File '" ++ path ++ "' is a directory."
  | .notADirectory path => "Directory '" ++ path ++ "' is a file."
  | .noSuchCommand name => "No such command '" ++ name ++ "'."
  | .missingCommand => "Missing command."
  | .missingNames => "Missing argument 'NAMES...'."
  | .pathsWithRevision => "PATHS can't be combined with --git-rev"

/-- The arguments of a command: the options in order, each with its value, and the operands. -/
structure Arguments (κ : Type) where
  options : List (κ × String) := []
  operands : List String := []

namespace Arguments

variable {κ : Type}

/-- One more option in front. -/
def withOption (key : κ) (value : String) (arguments : Arguments κ) : Arguments κ :=
  { arguments with options := (key, value) :: arguments.options }

/-- One more operand in front. -/
def withOperand (operand : String) (arguments : Arguments κ) : Arguments κ :=
  { arguments with operands := operand :: arguments.operands }

/-- An argument that is an option, or several short ones: a dash alone is an operand. -/
def isOption (argument : String) : Bool :=
  argument.startsWith "-" && argument != "-"

/-- The name of a long option in an argument, and the value after an equals sign. -/
def splitLong (argument : String) : String × Option String :=
  let name := argument.toList.takeWhile (· != '=')
  match argument.toList.drop name.length with
  | [] => (argument, none)
  | _ :: value => (String.ofList name, some (String.ofList value))

/-- The short options that share a dash: those without value, and the last one if it takes a value, with
    the text that stands directly behind it. -/
def readShort (specs : List (OptionSpec κ)) :
    List Char → Except UsageError (List κ × Option (OptionSpec κ × Option String))
  | [] => .ok ([], none)
  | c :: rest =>
    match specs.find? fun spec => spec.short = some c with
    | none => .error (.noSuchOption ("-" ++ String.singleton c))
    | some spec =>
      if spec.takesValue then
        .ok ([], some (spec, if rest.isEmpty then none else some (String.ofList rest)))
      else do
        let (keys, last) ← readShort specs rest
        return (spec.key :: keys, last)

/-- What an argument with a dash says: the options without value in it, and one that takes a value, with
    the value if it is there. -/
def readOption (specs : List (OptionSpec κ)) (argument : String) :
    Except UsageError (List κ × Option (OptionSpec κ × Option String)) :=
  let (name, value) := splitLong argument
  match specs.find? fun spec => spec.long = name with
  | some spec =>
    if spec.takesValue then .ok ([], some (spec, value))
    else if value.isSome then .error (.valueNotTaken name)
    else .ok ([spec.key], none)
  | none =>
    if argument.startsWith "--" then .error (.noSuchOption name)
    else readShort specs (argument.toList.drop 1)

/-- Reads the arguments of a command. If operands and options may not be `mixed`, everything from the first
    operand on is an operand. -/
def read (specs : List (OptionSpec κ)) (mixed : Bool) :
    List String → Except UsageError (Arguments κ)
  | [] => .ok {}
  | argument :: rest =>
    if argument = "--" then .ok { operands := rest }
    else if isOption argument then
      match readOption specs argument with
      | .error e => .error e
      | .ok (keys, last) =>
        let add (arguments : Arguments κ) : Arguments κ :=
          keys.foldr (fun key arguments => arguments.withOption key "") arguments
        match last with
        | none => (read specs mixed rest).map add
        | some (spec, some value) =>
          (read specs mixed rest).map fun arguments => add (arguments.withOption spec.key value)
        | some (spec, none) =>
          match rest with
          | [] => .error (.valueMissing spec.long)
          | value :: rest =>
            (read specs mixed rest).map fun arguments => add (arguments.withOption spec.key value)
    else if mixed then (read specs mixed rest).map (withOperand argument)
    else .ok { operands := argument :: rest }

variable [DecidableEq κ] (arguments : Arguments κ)

/-- The option is given. -/
def has (key : κ) : Bool :=
  arguments.options.any fun option => option.1 = key

/-- All values of an option, in order. -/
def values (key : κ) : List String :=
  arguments.options.filterMap fun (other, value) => if other = key then some value else none

/-- The value of an option; the last one counts. -/
def value? (key : κ) : Option String :=
  (arguments.values key).getLast?

end Arguments

end Unassigned
