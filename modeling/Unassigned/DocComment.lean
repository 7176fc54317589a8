import Unassigned.Ordered
import Unassigned.Text.Word
import Unassigned.Token.Lexeme

/-!
# `DocComment` — variables that a doc comment declares

The tag `@var` names variables and may name their type in front of them: `@var Type $a, $b`. A tag without
a variable declares nothing.
-/

namespace Unassigned.DocComment

/-- A character that a variable's name can start with: an ASCII letter, the underscore, or a character
    beyond ASCII in the basic plane. -/
def isNameStart (c : Char) : Bool :=
  c.isAlpha || c == '_' || (0x80 ≤ c.toNat && c.toNat ≤ 0xffff)

/-- A character of a variable's name. -/
def isNameChar (c : Char) : Bool :=
  Text.isWordChar c || (0x80 ≤ c.toNat && c.toNat ≤ 0xffff)

/-- A whole text is an identifier. -/
def isIdentifier : List Char → Bool
  | [] => false
  | c :: rest => isNameStart c && rest.all isNameChar

/-- A character of the name of a type. -/
def isTypeChar (c : Char) : Bool :=
  !Text.isBlank c && c != '$'

/-- The length of a comma with the white space around it. -/
def commaLength? (s : List Char) : Option Nat :=
  let before := runLength Text.isBlank s
  match s.drop before with
  | ',' :: rest => some (before + 1 + runLength Text.isBlank rest)
  | _ => none

/-- The variables of a list separated by commas at the start of a text, and the length of the list. -/
def variableList (s : List Char) : List (List Char) × Nat :=
  match s with
  | '$' :: c :: rest =>
    if isNameStart c then
      let length := runLength isNameChar rest
      let name := '$' :: c :: rest.take length
      match commaLength? (rest.drop length) with
      | none => ([name], length + 2)
      | some comma =>
        match variableList ((rest.drop length).drop comma) with
        | ([], _) => ([name], length + 2)
        | (names, more) => (name :: names, length + 2 + comma + more)
    else ([], 0)
  | _ => ([], 0)
termination_by s.length
decreasing_by simp; omega

/-- The type before the variables, at the start of a text, with its length and that of the white space
    after it. -/
def typeLength? (s : List Char) : Option (List Char × Nat) :=
  match s with
  | c :: rest =>
    let length := runLength isTypeChar rest
    let blanks := runLength Text.isBlank (rest.drop length)
    if isTypeChar c ∧ c ≠ '*' ∧ blanks ≠ 0 then some (c :: rest.take length, 1 + length + blanks)
    else none
  | [] => none

/-- The type and variables that follow a tag, at least one, and the length of all that. -/
def afterTag? (s : List Char) : Option (Option (List Char) × List (List Char) × Nat) :=
  let blanks := runLength Text.isBlank s
  let s := s.drop blanks
  if blanks = 0 then none
  else
    let (type, length) := match typeLength? s with
      | some (type, length) => (some type, length)
      | none => (none, 0)
    match variableList (s.drop length) with
    | ([], _) => none
    | (names, more) => some (type, names, blanks + length + more)

/-- The variables of every tag in a text, with the type given to them. -/
def entries (s : List Char) : List (String × Option String) :=
  match s with
  | [] => []
  | c :: rest =>
    match if ['@', 'v', 'a', 'r'].isPrefixOf (c :: rest) then afterTag? (rest.drop 3) else none with
    | some (type, names, length) =>
      names.map (fun name => (String.ofList name, type.map String.ofList))
        ++ entries (rest.drop (3 + length))
    | none => entries rest
termination_by s.length
decreasing_by all_goals (simp; try omega)

/-- The variables that a doc comment declares, in the order of their first tag, each with the type of its
    last tag. -/
def declarations (text : String) : List (String × Option String) :=
  Ordered.ofList (entries text.toList)

end Unassigned.DocComment
