import Unassigned.Text.Quoted
import Unassigned.Token.Basic

/-!
# `Token.Error` — why a source has no token structure

A source is rejected when a comment, string, heredoc or interpolated expression does not end, when its
brackets do not pair up, or when a class or function has no proper declaration. One reason is not a fault of the
source: its interpolated expressions are nested deeper than the scanners follow them.
-/

namespace Unassigned

/-- A construct of the lexical grammar that does not end. -/
inductive OpenConstruct where
  | comment
  | string
  | heredoc (label : String)
  | interpolation
  deriving DecidableEq, Repr

/-- Why a source cannot be parsed. -/
inductive ParseError where
  /-- A lexical construct is still open at the end, noticed on this line. -/
  | unterminated (what : OpenConstruct) (line : Nat)
  /-- Too many interpolated expressions contain one. -/
  | tooDeep
  /-- A closing bracket without an opening one. -/
  | unmatched (closer : Token)
  /-- A closing bracket that does not belong to the innermost opening one. -/
  | mismatched (closer opener : Token)
  /-- An opening bracket that is never closed. -/
  | unclosed (opener : Token)
  /-- The partner of a token that is no bracket was asked for. -/
  | notBracket (token : Token)
  /-- A class keyword without a body. -/
  | classWithoutBody (keyword : Token)
  /-- A function keyword without a parameter list. -/
  | parametersExpected (found : Token)
  /-- A function header that leads to no body and no semicolon. -/
  | bodyExpected (keyword : Token)
  deriving DecidableEq, Repr

/-- A message followed by the place and text of the token it is about. -/
def Token.describe (t : Token) (message : String) : String :=
  message ++ " (line " ++ toString t.line ++ ": " ++ Text.quoted t.text ++ ")"

/-- The name of an open construct. -/
def OpenConstruct.label : OpenConstruct → String
  | .comment => "comment"
  | .string => "string"
  | .heredoc label => "heredoc <<<" ++ label
  | .interpolation => "interpolation"

/-- The name of a kind of error. -/
def ParseError.label : ParseError → String
  | .tooDeep => "RecursionError"
  | _ => "ParseError"

/-- The wording of an error. -/
def ParseError.message : ParseError → String
  | .unterminated what line => "Unterminated " ++ what.label ++ " at line " ++ toString line
  | .tooDeep => "maximum recursion depth exceeded"
  | .unmatched closer => closer.describe ("Unmatched '" ++ closer.text ++ "'")
  | .mismatched closer opener =>
    closer.describe ("'" ++ closer.text ++ "' does not close '" ++ opener.text ++ "' from line "
      ++ toString opener.line)
  | .unclosed opener => opener.describe ("Unclosed '" ++ opener.text ++ "'")
  | .notBracket token => token.describe "Not a bracket"
  | .classWithoutBody keyword => keyword.describe "Class declaration without body"
  | .parametersExpected found => found.describe "Invalid function declaration: '(' expected"
  | .bodyExpected keyword => keyword.describe "Invalid function declaration: body or ';' expected"

end Unassigned
