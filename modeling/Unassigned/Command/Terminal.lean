import Unassigned.Defect
import Unassigned.Text.CellWidth

/-!
# `Command.Terminal` — lines of text for a terminal

Text from a source file can hold anything. Before it is shown, the control characters that would move the
cursor are dropped and tabs are expanded. A colored text is colored line by line. A message about a failure
is written without the escape sequences in it.
-/

namespace Unassigned

/-- A color of a line. -/
inductive Color where
  | red
  | yellow
  | green
  deriving DecidableEq, Repr

/-- The number that selects a color. -/
def Color.code : Color → String
  | .red => "31"
  | .yellow => "33"
  | .green => "32"

/-- The color of a severity. -/
def Severity.color : Severity → Color
  | .error => .red
  | .warning => .yellow
  | .notice => .green

namespace Terminal

/-- A character that is not shown: bell, backspace, vertical tab, form feed or carriage return. -/
def isDropped (c : Char) : Bool :=
  [7, 8, 11, 12, 13].contains c.toNat

/-- A line in a color; an empty line has none. -/
def paint (color : Option Color) (line : String) : String :=
  match color with
  | some color =>
    if line = "" then "" else "\x1b[" ++ color.code ++ "m" ++ line ++ "\x1b[0m"
  | none => line

/-- The lines of a text as they are shown. -/
def shownLines (text : String) : List String :=
  (Text.splitAt '\n' (text.toList.filter fun c => !isDropped c)).map
    fun line => String.ofList (Text.expandTabs line)

/-- What is written for a text. -/
def render (color : Option Color) (text : String) : String :=
  String.join ((shownLines text).map fun line => paint color line ++ "\n")

/-! ## Messages -/

/-- A character of the parameters of an escape sequence. -/
def isParameter (c : Char) : Bool :=
  c.isDigit || c == ';' || c == '?'

/-- The length of an escape sequence without its first character: a bracket, parameters and a letter. -/
def escapeLength? : List Char → Option Nat
  | '[' :: rest =>
    let parameters := rest.takeWhile isParameter
    if (rest.drop parameters.length).head?.any Char.isAlpha then some (parameters.length + 2) else none
  | _ => none

/-- A text without its escape sequences. -/
def dropEscapes (s : List Char) : List Char :=
  match s with
  | [] => []
  | c :: rest =>
    match if c = '\x1b' then escapeLength? rest else none with
    | some length => dropEscapes (rest.drop length)
    | none => c :: dropEscapes rest
termination_by s.length
decreasing_by all_goals (simp only [List.length_cons, List.length_drop]; omega)

/-- A text in which a carriage return before a line feed is left out. -/
def joinLineEnds : List Char → List Char
  | [] => []
  | [c] => [c]
  | c :: d :: rest =>
    if c = '\r' ∧ d = '\n' then joinLineEnds (d :: rest) else c :: joinLineEnds (d :: rest)

/-- What is written for a message about a failure. -/
def message (text : String) : String :=
  String.ofList (joinLineEnds (dropEscapes ("Error: " ++ text ++ "\n").toList))

end Terminal

end Unassigned
