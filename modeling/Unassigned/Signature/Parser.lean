import Unassigned.Ordered
import Unassigned.Signature.Basic
import Unassigned.Text.Number
import Unassigned.Text.Word

/-!
# `Signature.Parser` — configured signatures

A configured signature is written in one of two forms. The first is a name and the positions of its
by-reference arguments, `name, 0, 2`. The second is a prototype, `Foo::bar($a, &$b, &...$rest)`; its name
loses the namespace in front of the class and function, as calls are looked up without it.
-/

namespace Unassigned

/-- Why a configured signature is refused. -/
inductive SignatureError where
  | missingName (text : String)
  | badPosition (text : String)
  | badPrototype (text : String)
  deriving DecidableEq, Repr

/-- The wording of an error. -/
def SignatureError.message : SignatureError → String
  | .missingName text => "Invalid signature '" ++ text ++ "': missing function name"
  | .badPosition text => "Invalid signature '" ++ text ++ "': positions must be integers"
  | .badPrototype text => "Invalid function prototype '" ++ text ++ "'"

namespace Signature

/-! ## Name and positions -/

/-- Reads `name, position, position...`; empty positions are skipped. -/
def ofPositions (text : String) : Except SignatureError Signature :=
  match (Text.splitAt ',' text.toList).map Text.stripChars with
  | [] => .error (.missingName text)
  | name :: positions =>
    if name.isEmpty then .error (.missingName text)
    else
      match (positions.filter fun part => !part.isEmpty).mapM Text.integer? with
      | none => .error (.badPosition text)
      | some refs => .ok { name := String.ofList name, refs := positionSet refs }

/-! ## Prototypes -/

/-- A character that a name in a prototype can start with. -/
def isPrototypeStart (c : Char) : Bool :=
  c.isAlpha || c == '_'

/-- A character of a name with namespace. -/
def isQualifiedChar (c : Char) : Bool :=
  Text.isWordChar c || c == '\\'

/-- A name with an optional namespace: the name and what follows it. -/
def qualifiedName? (s : List Char) : Option (List Char × List Char) :=
  let (lead, s) := match s with
    | '\\' :: rest => (['\\'], rest)
    | _ => ([], s)
  match s with
  | c :: rest =>
    if isPrototypeStart c then
      some (lead ++ c :: rest.takeWhile isQualifiedChar, rest.dropWhile isQualifiedChar)
    else none
  | [] => none

/-- The class of a prototype, or the question mark for any class, or the function's own name; and what
    follows it. -/
def prototypeHead? (s : List Char) : Option (List Char × List Char) :=
  match s with
  | '?' :: rest => some (['?'], rest)
  | _ => qualifiedName? s

/-- The name parts of a prototype, one or two, and what follows them. -/
def prototypeName? (s : List Char) : Option (List (List Char) × List Char) :=
  match prototypeHead? s with
  | none => none
  | some (head, ':' :: ':' :: c :: rest) =>
    if isPrototypeStart c then
      some ([head, c :: rest.takeWhile Text.isWordChar], rest.dropWhile Text.isWordChar)
    else none
  | some (head, rest) => if head = ['?'] then none else some ([head], rest)

/-- What follows a prototype's closing parenthesis: at most a semicolon and white space. -/
def isPrototypeTail (s : List Char) : Bool :=
  let tail := Text.stripChars s
  tail.isEmpty || tail == [';']

/-- The text between the parentheses of a prototype; the last closing parenthesis counts. -/
def prototypeArguments? (s : List Char) : Option (List Char) :=
  match Text.stripFront s with
  | '(' :: rest =>
    if rest.contains ')' && isPrototypeTail (Text.afterLast ')' rest) then
      some (rest.take (rest.length - (Text.afterLast ')' rest).length - 1))
    else none
  | _ => none

/-- What stands before the variable of a parameter. -/
def parameterMarker (parameter : List Char) : List Char :=
  parameter.takeWhile (· != '$')

/-- The text holds three points in a row. -/
def hasEllipsis : List Char → Bool
  | [] => false
  | c :: rest => ['.', '.', '.'].isPrefixOf (c :: rest) || hasEllipsis rest

/-- The positions of the by-reference parameters among `parameters`, the first of which is at
    `position`. -/
def markedPositions (position : Nat) : List (List Char) → List Int
  | [] => []
  | parameter :: rest =>
    let marker := parameterMarker parameter
    let refs := if marker.contains '&' then refPositions position (hasEllipsis marker) else []
    refs ++ markedPositions (position + 1) rest

/-- Reads a prototype such as `foo(&$x)`, `Foo::bar($a, &$b)` or `?::qux(&...$rest)`. -/
def ofPrototype (text : String) : Except SignatureError Signature :=
  match prototypeName? (Text.stripFront text.toList) with
  | none => .error (.badPrototype text)
  | some (parts, rest) =>
    match prototypeArguments? rest with
    | none => .error (.badPrototype text)
    | some arguments =>
      let name := "::".intercalate (parts.map fun part => String.ofList (Text.afterLast '\\' part))
      let arguments := Text.stripChars arguments
      let refs := if arguments.isEmpty then []
        else positionSet (markedPositions 0 (Text.splitAt ',' arguments))
      .ok { name, refs }

/-- Reads a signature in either form: a text with a parenthesis is a prototype. -/
def ofText (text : String) : Except SignatureError Signature :=
  if text.toList.contains '(' then ofPrototype text else ofPositions text

end Signature

/-! ## The configured table -/

/-- Adds signatures to a table under their names; a later one replaces an earlier one. -/
def addSignatures (read : String → Except SignatureError Signature) (table : List (String × Signature))
    (texts : List String) : Except SignatureError (List (String × Signature)) :=
  texts.foldlM (fun table text => do
    let signature ← read text
    return Ordered.insert signature.name signature table) table

/-- The table of the configured signatures: those given by positions, then those in either form. -/
def configuredSignatures (byPositions inEitherForm : List String) :
    Except SignatureError (List (String × Signature)) := do
  let table ← addSignatures Signature.ofPositions [] byPositions
  addSignatures Signature.ofText table inEitherForm

end Unassigned
