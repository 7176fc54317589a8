import Unassigned.Ordered
import Unassigned.Text.Number

/-!
# `Json.Basic` — JSON values and how they are written

An object keeps its members in the order in which their keys first appeared; a key has one member. A
number that is not written as an integer is kept as it was written.
-/

namespace Unassigned

/-- A JSON value. -/
inductive Json where
  | null
  | bool (value : Bool)
  | int (value : Int)
  /-- A number with a fraction or exponent, or one of the words for infinity and not-a-number. -/
  | real (text : String)
  | str (value : String)
  | arr (elements : List Json)
  | obj (members : List (String × Json))

namespace Json

/-- The object of a sequence of keys and values, of which later ones replace earlier ones in place. -/
def ofMembers (members : List (String × Json)) : Json :=
  .obj (Ordered.ofList members)

/-- The value of a key, if this is an object that has it. -/
def get? (key : String) : Json → Option Json
  | .obj members => members.lookup key
  | _ => none

/-- The text, if this is one. -/
def str? : Json → Option String
  | .str value => some value
  | _ => none

/-- The integer, if this is one. -/
def int? : Json → Option Int
  | .int value => some value
  | _ => none

/-- The truth value, if this is one. -/
def bool? : Json → Option Bool
  | .bool value => some value
  | _ => none

/-- The elements, if this is an array. -/
def arr? : Json → Option (List Json)
  | .arr elements => some elements
  | _ => none

/-- The members, if this is an object. -/
def obj? : Json → Option (List (String × Json))
  | .obj members => some members
  | _ => none

/-- The texts of an array that holds nothing else. -/
def strings? (value : Json) : Option (List String) :=
  value.arr?.bind fun elements => elements.mapM str?

/-! ## Writing

A value is written on one line, with a space after each comma and colon, or spread over lines with an indentation of
two spaces for each level. Every character outside printable ASCII is escaped, one beyond the basic plane as a
surrogate pair. -/

/-- An escape of four hexadecimal digits. -/
def unicodeEscape (unit : Nat) : List Char :=
  '\\' :: 'u' :: Text.hexPadded 4 unit

/-- One character of a string. -/
def writeChar (c : Char) : List Char :=
  if c = '\x22' ∨ c = '\\' then ['\\', c]
  else if c = '\n' then ['\\', 'n']
  else if c = '\r' then ['\\', 'r']
  else if c = '\t' then ['\\', 't']
  else if c = '\x08' then ['\\', 'b']
  else if c = '\x0c' then ['\\', 'f']
  else if 0x20 ≤ c.toNat ∧ c.toNat < 0x7f then [c]
  else if c.toNat < 0x10000 then unicodeEscape c.toNat
  else
    let offset := c.toNat - 0x10000
    unicodeEscape (0xd800 + offset / 0x400) ++ unicodeEscape (0xdc00 + offset % 0x400)

/-- A string in quotes. -/
def writeString (s : String) : String :=
  String.ofList ('\x22' :: s.toList.flatMap writeChar ++ ['\x22'])

/-- How the parts of arrays and objects are laid out. -/
inductive Layout where
  /-- All on one line. -/
  | line
  /-- Each part on a line of its own, two spaces deeper than what holds it. -/
  | indented

/-- The text between the parts at this depth, before the first and after the last. -/
def Layout.gap (layout : Layout) (depth : Nat) : String :=
  match layout with
  | .line => ""
  | .indented => "\n" ++ String.ofList (List.replicate (2 * depth) ' ')

/-- The text between two parts at this depth. -/
def Layout.separator (layout : Layout) (depth : Nat) : String :=
  match layout with
  | .line => ", "
  | .indented => "," ++ layout.gap depth

/-- Encloses the parts of an array or object in brackets. -/
def Layout.enclose (layout : Layout) (depth : Nat) (opening closing : String) (parts : List String) :
    String :=
  if parts.isEmpty then opening ++ closing
  else opening ++ layout.gap (depth + 1) ++ (layout.separator (depth + 1)).intercalate parts
    ++ layout.gap depth ++ closing

mutual

/-- A value at a depth. -/
def write (layout : Layout) (depth : Nat) : Json → String
  | .null => "null"
  | .bool value => if value then "true" else "false"
  | .int value => toString value
  | .real text => text
  | .str value => writeString value
  | .arr elements => layout.enclose depth "[" "]" (writeElements layout (depth + 1) elements)
  | .obj members => layout.enclose depth "\x7b" "\x7d" (writeMembers layout (depth + 1) members)

/-- The elements of an array. -/
def writeElements (layout : Layout) (depth : Nat) : List Json → List String
  | [] => []
  | value :: rest => write layout depth value :: writeElements layout depth rest

/-- The members of an object. -/
def writeMembers (layout : Layout) (depth : Nat) : List (String × Json) → List String
  | [] => []
  | (key, value) :: rest =>
    (writeString key ++ ": " ++ write layout depth value) :: writeMembers layout depth rest

end

/-- A value on one line. -/
def compact (value : Json) : String :=
  write .line 0 value

/-- A value spread over lines. -/
def pretty (value : Json) : String :=
  write .indented 0 value

end Json

end Unassigned
