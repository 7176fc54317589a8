import Unassigned.Token.Error

/-!
# `Scan.Error` — why a scan stops

A scan stops at a construct that is not followed by what belongs to it. It also stops when a configured
negative position reaches before the first argument of a call.
-/

namespace Unassigned

/-- A construct that needs a certain character in a certain place. -/
inductive Construct where
  | foreachLoop
  | listPattern
  | functionHeader
  | closureHeader
  | arrowFunction
  | catchClause
  deriving DecidableEq, Repr

/-- The name of a construct. -/
def Construct.label : Construct → String
  | .foreachLoop => "foreach"
  | .listPattern => "list declaration"
  | .functionHeader => "function declaration"
  | .closureHeader => "closure declaration"
  | .arrowFunction => "arrow function"
  | .catchClause => "catch"

/-- A construct that is not followed by what belongs to it. -/
inductive AnalysisError where
  /-- A character was expected; at the end of the file the construct's own token is named. -/
  | charExpected (c : Char) (construct : Construct) (found : Option Token) (keyword : Token)
  /-- A function header leads to something else than a body or a semicolon. -/
  | bodyExpected (found : Option Token) (keyword : Token)
  | asExpected (keyword : Token)
  | parameterExpected (first : Token)
  | captureExpected (token : Token)
  | doubleArrowExpected (keyword : Token)
  | exceptionTypeExpected (token : Token)
  | badGlobal (token : Token)
  | badStatic (token : Token)
  /-- Scopes are left over at the end of a file. -/
  | openScopes (depth : Nat) (file : String)
  deriving DecidableEq, Repr

namespace AnalysisError

/-- The token an error is about. -/
def token? : AnalysisError → Option Token
  | .charExpected _ _ found keyword => some (found.getD keyword)
  | .bodyExpected found keyword => some (found.getD keyword)
  | .asExpected token => some token
  | .parameterExpected token => some token
  | .captureExpected token => some token
  | .doubleArrowExpected token => some token
  | .exceptionTypeExpected token => some token
  | .badGlobal token => some token
  | .badStatic token => some token
  | .openScopes _ _ => none

/-- How the token that was found is named; a file may end instead. -/
def foundText (found : Option Token) : String :=
  Text.quoted ((found.map Token.text).getD "end of file")

/-- What is wrong, without the token. -/
def summary : AnalysisError → String
  | .charExpected c construct found _ =>
    "Invalid " ++ construct.label ++ ": '" ++ String.singleton c ++ "' expected, found "
      ++ foundText found
  | .bodyExpected found _ =>
    "Invalid function declaration: " ++ foundText found ++ " found instead of '\x7b' or ';'"
  | .asExpected _ => "Invalid foreach: 'as' expected"
  | .parameterExpected _ => "Invalid function declaration: parameter expected"
  | .captureExpected _ => "Invalid closure declaration: variable expected"
  | .doubleArrowExpected _ => "Invalid arrow function: '=>' expected"
  | .exceptionTypeExpected _ => "No exception type found"
  | .badGlobal _ => "Invalid 'global' declaration"
  | .badStatic _ => "Invalid 'static' declaration"
  | .openScopes depth file => "internal error: size of stack = " ++ toString depth ++ ", " ++ file

/-- The wording of an error. -/
def message (e : AnalysisError) : String :=
  match e.token? with
  | some token => token.describe e.summary
  | none => e.summary

end AnalysisError

/-- Why a scan stops. -/
inductive ScanError where
  | analysis (e : AnalysisError)
  /-- A configured position lies before the first argument of a call. -/
  | positionOutOfRange
  deriving DecidableEq, Repr

/-- The name of a kind of error. -/
def ScanError.label : ScanError → String
  | .analysis _ => "AnalysisError"
  | .positionOutOfRange => "IndexError"

/-- The wording of an error. -/
def ScanError.message : ScanError → String
  | .analysis e => e.message
  | .positionOutOfRange => "list index out of range"

end Unassigned
