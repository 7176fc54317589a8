import Unassigned.Signature.Builtin
import Unassigned.Signature.Parser
import Unassigned.Source.File

/-!
# `Signature.Table` — the signatures that a call can refer to

Signatures come from three places, of which the first that knows a name counts: the functions and methods
that the file itself declares, the configuration, and the functions of the runtime. A call can have
several candidate names, tried in order.
-/

namespace Unassigned

/-- The positions of the by-reference parameters in the parameter list that opens at `paren`. -/
def SourceFile.referencePositions (f : SourceFile) (paren : Nat) : List Int :=
  positionSet <| (f.arguments paren).zipIdx.flatMap fun (first, position) =>
    let parameter := f.parameterAt first
    if parameter.isRef then refPositions position parameter.isVariadic else []

/-- The key under which calls look up a declared function; nothing for a constructor and for a method of
    an anonymous class. -/
def SourceFile.signatureKey? (f : SourceFile) (function : FunctionDecl) : Option String :=
  match function.name with
  | none => none
  | some name =>
    if Text.lower name = "__construct" then none
    else
      match f.classAt? function.keywordIndex with
      | some ⟨none, _, _, _⟩ => none
      | _ =>
        match function.className with
        | some className => some (className ++ "::" ++ name)
        | none => some name

/-- The signatures of the functions and methods that a file declares. -/
def SourceFile.signatures (f : SourceFile) : List (String × Signature) :=
  Ordered.ofList <| f.functions.filterMap fun function =>
    (f.signatureKey? function).map fun key =>
      (key, { name := key, refs := f.referencePositions function.paramsStart })

/-- The signatures known in a file, by where they come from. -/
structure SignatureTable where
  declared : List (String × Signature) := []
  configured : List (String × Signature) := []
  builtin : String → Option Signature := builtinSignature?

namespace SignatureTable

/-- The signature of a name. -/
def find? (table : SignatureTable) (name : String) : Option Signature :=
  table.declared.lookup name <|> table.configured.lookup name <|> table.builtin name

/-- The signature of the first candidate that has one. -/
def lookup? (table : SignatureTable) (candidates : List String) : Option Signature :=
  candidates.findSome? table.find?

end SignatureTable

/-! ## The names of a call

A plain call `bar()` has its own name. A call of a method has `Class::bar` if the class can be told, and `?::bar` for any
class; it never has the plain name. The class is told by the qualifier in `Foo::bar()`, by the enclosing class for
`$this->bar()`, `self::bar()` and `static::bar()`, and by an annotation for another variable. -/

/-- The last segment of a class name with namespace. -/
def shortClassName (name : String) : String :=
  String.ofList (Text.afterLast '\\' name.toList)

/-- The names of a method of a class that may be unknown. -/
def methodNames (className : Option String) (method : String) : List String :=
  match className with
  | some className => [className ++ "::" ++ method, "?::" ++ method]
  | none => ["?::" ++ method]

namespace SourceFile

variable (f : SourceFile)

/-- The name of the innermost class around a place. -/
def classNameAt? (i : Nat) : Option String :=
  (f.classAt? i).bind ClassDecl.name

/-- The class of the object in a call whose name stands at `i`, after an arrow at `operator`; `types`
    gives the annotated classes of variables. -/
def receiverClass? (types : List (String × String)) (i operator : Nat) : Option String := do
  let receiver ← f.prev? operator
  if f.kind receiver ≠ .var then none
  else if (f.prev? receiver).any fun before => (f.kind before).isMemberAccess then none
  else if f.text receiver = "$this" then f.classNameAt? i
  else
    let annotated ← types.lookup (f.text receiver)
    if annotated.isEmpty then none else some (shortClassName annotated)

/-- The class in a call whose name stands at `i`, after a double colon at `operator`. -/
def qualifierClass? (i operator : Nat) : Option String := do
  let qualifier ← f.prev? operator
  if f.kind qualifier = .name ∨ f.kind qualifier = .keyword .staticWord then
    let lowered := Text.lower (f.text qualifier)
    if lowered = "self" ∨ lowered = "static" then f.classNameAt? i
    else if lowered = "parent" then none
    else some (f.text qualifier)
  else none

/-- The names under which the call whose name stands at `i` is looked up, in order. -/
def callNames (types : List (String × String)) (i : Nat) : List String :=
  let name := f.text i
  match f.prev? i with
  | none => [name]
  | some operator =>
    if (f.kind operator).isObjectOperator then
      methodNames (f.receiverClass? types i operator) name
    else if f.kind operator = .doubleColon then methodNames (f.qualifierClass? i operator) name
    else [name]

end SourceFile

end Unassigned
