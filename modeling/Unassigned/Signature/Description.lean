import Unassigned.Json.Basic
import Unassigned.Signature.Table

/-!
# `Signature.Description` — what is known about a called name

A name is looked up as a call of it would be: a method also under the name for any class.
-/

namespace Unassigned

/-- What is known about a called name. -/
structure Description where
  name : String
  signature : Option Signature

/-- The text after the first double colon, if there is one. -/
def afterDoubleColon? : List Char → Option (List Char)
  | [] => none
  | ':' :: ':' :: rest => some rest
  | _ :: rest => afterDoubleColon? rest

/-- The names under which a name given by the user is looked up. -/
def lookupNames (name : String) : List String :=
  match afterDoubleColon? name.toList with
  | some method =>
    if name.startsWith "?::" then [name] else [name, "?::" ++ String.ofList method]
  | none => [name]

namespace Description

/-- What a table knows about a name. -/
def ofName (table : SignatureTable) (name : String) : Description :=
  ⟨name, table.lookup? (lookupNames name)⟩

/-- A description as JSON. -/
def toJson (description : Description) : Json :=
  match description.signature with
  | none => .obj [("name", .str description.name), ("known", .bool false)]
  | some signature =>
    .obj [
      ("name", .str description.name),
      ("known", .bool true),
      ("matched", .str signature.name),
      ("ref_positions", .arr (signature.refs.map .int)),
      ("does_not_initialize", .bool signature.doesNotInitialize)]

/-- A description as a line of text. -/
def format (description : Description) : String :=
  match description.signature with
  | none => description.name ++ ": unknown, arguments are checked as reads"
  | some signature =>
    let matched := if signature.name = description.name then "" else " (as " ++ signature.name ++ ")"
    let head := description.name ++ matched ++ ": "
    if signature.refs.isEmpty then head ++ "no by-reference parameters"
    else
      let positions := ", ".intercalate (signature.refs.map toString)
      let rule :=
        if signature.doesNotInitialize then "must be initialized" else "initialized by the call"
      head ++ "by-reference positions " ++ positions ++ ", " ++ rule

end Description

end Unassigned
