import Unassigned.Scan.Command

/-!
# `Scan.Call` — arguments of a call

A call can set the variables that it is given by reference. If the function is known, its signature tells
which arguments those are. If it is not, any argument that is a variable alone may be one.
-/

namespace Unassigned

/-- The element of a list at a position; a negative one counts from the end. -/
def elementAt? {α : Type} (xs : List α) (position : Int) : Option α :=
  let place := if position < 0 then xs.length + position else position
  if place < 0 then none else xs[place.toNat]?

namespace TokenStream

variable (f : TokenStream)

/-- The value of a named argument `label: value` that starts at a place. -/
def namedValue? (first : Nat) : Option (Option Nat) :=
  match f.next? first with
  | some colon =>
    if DocComment.isIdentifier (f.text first).toList && f.isChar colon ':' then some (f.next? colon)
    else none
  | none => none

/-- The first tokens of the positional arguments in the parentheses that open at a place. -/
def positionalArguments (paren : Nat) : List Nat :=
  (f.arguments paren).filter fun first => (f.namedValue? first).isNone

/-- The first tokens of the values of the named arguments. -/
def namedArguments (paren : Nat) : List Nat :=
  (f.arguments paren).filterMap fun first => (f.namedValue? first).join

/-- An argument without the ampersand in front of it. -/
def withoutAmpersand (first : Nat) : Option Nat :=
  if f.isChar first '&' then f.next? first else some first

/-- An argument that is a variable alone. -/
def isStandalone (i : Nat) : Bool :=
  (f.next? i).any fun j => f.isCharOf j [',', ')']

/-- A token of the class in `Foo::$bar`. -/
def isClassReference : Kind → Bool
  | .name | .nsSeparator | .keyword .staticWord => true
  | _ => false

/-- A static property `Foo::$bar` starts here. -/
def isClassVariable (i : Nat) : Bool :=
  match f.skipKinds isClassReference i with
  | none => false
  | some colon =>
    f.kind colon == .doubleColon && (f.next? colon).any fun j => f.kind j == .var

/-- An argument of an unknown function: a variable alone may be set by it, so it is read leniently. -/
def passToUnknown (first : Nat) : List Command :=
  match f.withoutAmpersand first with
  | none => []
  | some i =>
    if f.kind i == .var && f.isStandalone i then [.readLeniently (f.token i), .consume i] else []

/-- A by-reference argument of a known function. -/
def passByReference (signature : Signature) (first : Nat) : List Command :=
  match f.withoutAmpersand first with
  | none => []
  | some i =>
    if f.kind i == .ellipsis then []
    else if f.kind i == .var then
      let (after, isIndexed) := f.afterIndexes i
      if after.any fun j => f.isCharOf j [',', ')'] then
        if signature.doesNotInitialize then
          if isIndexed then [] else [.check (f.token i), .consume i]
        else [.assign (f.token i) .plain, .consume i]
      else []
    else if f.isClassVariable i then []
    else [.rejectReference (f.token i)]

/-- The by-reference arguments of a known function, by ascending position up to the last argument. -/
def passReferences (signature : Signature) (positional : List Nat) : List Int → Plan Unit
  | [] => pure ()
  | position :: rest =>
    if (positional.length : Int) ≤ position then pure ()
    else
      match elementAt? positional position with
      | none => ⟨[], .error .positionOutOfRange⟩
      | some first => do
        .emitAll (f.passByReference signature first)
        passReferences signature positional rest

end TokenStream

namespace ScanContext

variable (ctx : ScanContext)

/-- The signature of the call whose name stands at a place; `types` gives the annotated classes of the
    variables in the current scope. -/
def callSignature? (types : List (String × String)) (i : Nat) : Option Signature :=
  ctx.signatures.lookup? (ctx.file.callNames types i)

/-- The call whose name stands at `i` and whose arguments open at `paren`. -/
def handleCall (types : List (String × String)) (i paren : Nat) : Plan Unit :=
  let f := ctx.file
  let positional := f.positionalArguments paren
  let named := f.namedArguments paren
  match ctx.callSignature? types i with
  | none => .emitAll ((positional ++ named).flatMap f.passToUnknown)
  | some signature =>
    if signature.refs.isEmpty then pure ()
    else do
      .emitAll (named.flatMap f.passToUnknown)
      f.passReferences signature positional signature.refs

/-- A name: a call if a parenthesis follows and no function keyword stands before it. Whatever `extract`
    sets is unknown from the next statement on. -/
def handleName (types : List (String × String)) (i : Nat) : Plan Unit :=
  let f := ctx.file
  match f.next? i with
  | none => pure ()
  | some paren =>
    if !f.isChar paren '(' || f.prevIs i (.keyword .functionWord) then pure ()
    else do
      let isExtract := !f.prevAny i Kind.isMemberAccess && Text.lower (f.text i) == "extract"
      .emitAll (if isExtract then [.schedule (f.token i) (f.statementEnd i)] else [])
      ctx.handleCall types i paren

end ScanContext

end Unassigned
