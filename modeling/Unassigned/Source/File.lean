import Unassigned.Source.Stream

/-!
# `Source.File` — a parsed file, with its classes, functions and parameters

A class is known by its body, a function by its span from the keyword to the closing brace of its body,
or to the semicolon of a declaration without body. `innermost?` finds the innermost one around a place.
-/

namespace Unassigned

/-- A class, interface or trait. An anonymous class has no name. -/
structure ClassDecl where
  name : Option String
  keywordIndex : Nat
  bodyStart : Nat
  bodyEnd : Nat
  deriving DecidableEq, Repr

/-- A function, method or closure. A closure has no name; a declaration that ends with a semicolon has no
    body. -/
@[ext]
structure FunctionDecl where
  name : Option String
  className : Option String
  keywordIndex : Nat
  nameIndex : Option Nat
  paramsStart : Nat
  bodyStart : Option Nat
  endIndex : Nat
  deriving DecidableEq, Repr

/-- A parameter of a function: its variable, if there is one, and whether it is by reference and
    variadic. -/
structure Parameter where
  varIndex : Option Nat
  isRef : Bool
  isVariadic : Bool
  deriving DecidableEq, Repr

/-- The last of the spans with the latest start, among those that hold a place. -/
def innermost? {α : Type} (span : α → Nat × Nat) (i : Nat) (items : List α) : Option α :=
  items.foldl
    (fun best item =>
      if (span item).1 ≤ i ∧ i ≤ (span item).2
          ∧ best.all (fun other => (span other).1 ≤ (span item).1) then some item
      else best)
    none

namespace TokenStream

variable (f : TokenStream)

/-! ## Parameters -/

/-- A keyword or name that can stand in the modifiers or the type of a parameter. -/
def isParameterPart : Kind → Bool
  | .name | .nsSeparator => true
  | .keyword word =>
    [.arrayWord, .callableWord, .staticWord, .publicWord, .protectedWord, .privateWord,
      .readonlyWord].contains word
  | _ => false

/-- The parameter that goes on at a place, with what was seen of it before. An ampersand is a mark of
    reference only directly before the variable or the ellipsis; elsewhere it belongs to a type. -/
def parameterFrom (isRef isVariadic : Bool) (i : Nat) : Parameter :=
  let isGroup := f.kind i == .attributeOpen || f.isChar i '('
  let isAmpersand := f.isChar i '&'
  let isEllipsis := f.kind i == .ellipsis
  if isGroup || isParameterPart (f.kind i) || f.isCharOf i ['?', '|'] || isAmpersand
      || isEllipsis then
    match _h : f.next? (if isGroup then f.skipGroup i else i) with
    | none => ⟨none, isRef, isVariadic || isEllipsis⟩
    | some j =>
      let marksRef := isAmpersand && (f.kind j == .var || f.kind j == .ellipsis)
      parameterFrom (isRef || marksRef) (isVariadic || isEllipsis) j
  else ⟨if f.kind i == .var then some i else none, isRef, isVariadic⟩
termination_by f.size - i
decreasing_by
  have hnext := f.next?_bounds _h
  have hskip := f.le_skipGroup i
  split at hnext <;> omega

/-- The parameter whose first significant token stands at a place. -/
def parameterAt (i : Nat) : Parameter :=
  f.parameterFrom false false i

/-! ## Headers -/

/-- From the colon of a return type over the type: the brace of the body or the semicolon. -/
def afterReturnType? (i : Nat) : Option Nat :=
  f.search? (fun j => f.isChar j '(') (fun j => f.isCharOf j ['\x7b', ';']) i

/-- From the parenthesis that opens the parameters of a function: the brace of its body or its
    semicolon. A closure's captures and a return type may stand between. -/
def headerEnd? (paramsStart : Nat) : Option Nat := do
  let n ← f.next? (f.skipGroup paramsStart)
  let n ←
    if f.kind n == .keyword .useWord then do
      let paren ← f.next? n
      if f.isChar paren '(' then f.next? (f.skipGroup paren) else none
    else some n
  let n ← if f.isChar n ':' then f.afterReturnType? n else some n
  if f.isCharOf n ['\x7b', ';'] then some n else none

/-! ## Classes and functions -/

/-- The keywords that declare a class. -/
def isClassKeyword : Kind → Bool
  | .keyword .classWord | .keyword .interfaceWord | .keyword .traitWord => true
  | _ => false

/-- The token before a place is of the kind. -/
def prevIs (i : Nat) (kind : Kind) : Bool :=
  (f.prev? i).any fun j => f.kind j == kind

/-- A class whose keyword stands at a place. Its body is the first brace after the keyword, outside
    parentheses; a semicolon before it is an error. -/
def classAtKeyword (i : Nat) : Except ParseError ClassDecl :=
  let name := (f.next? i).bind fun j => if f.kind j == .name then some (f.text j) else none
  match f.search? (fun j => f.isChar j '(') (fun j => f.isCharOf j ['\x7b', ';']) i with
  | none => .error (.classWithoutBody (f.token i))
  | some body =>
    if f.isChar body ';' then .error (.classWithoutBody (f.token i))
    else .ok ⟨name, i, body, f.skipGroup body⟩

/-- The classes of a file, in the order of their keywords. The word in `Foo::class` declares none. -/
def classes : Except ParseError (List ClassDecl) :=
  ((List.range f.size).filter fun i =>
    isClassKeyword (f.kind i) && !f.prevIs i .doubleColon).mapM f.classAtKeyword

/-- The place after the keyword of a function and the ampersand that may follow it. -/
def afterFunctionKeyword? (i : Nat) : Option Nat :=
  match f.next? i with
  | some j => if f.isChar j '&' then f.next? j else some j
  | none => none

theorem afterFunctionKeyword?_bounds {i j : Nat} (h : f.afterFunctionKeyword? i = some j) :
    i < j ∧ j < f.size := by
  unfold afterFunctionKeyword? at h
  split at h
  next k hk =>
    have := f.next?_bounds hk
    split at h
    · have := f.next?_bounds h; omega
    · simp at h; omega
  next => simp at h

/-- The name of the function whose keyword stands at a place; a closure has none. -/
def functionName? (i : Nat) : Option Nat :=
  (f.afterFunctionKeyword? i).filter fun j => f.kind j == .name

/-- The place where the parameters of the function should open whose keyword stands at a place. -/
def functionParen? (i : Nat) : Option Nat :=
  match f.functionName? i with
  | some j => f.next? j
  | none => f.afterFunctionKeyword? i

theorem functionParen?_bounds {i j : Nat} (h : f.functionParen? i = some j) :
    i < j ∧ j < f.size := by
  unfold functionParen? functionName? at h
  split at h
  next k hk =>
    obtain ⟨hk, _⟩ := Option.filter_eq_some_iff.1 hk
    have := f.afterFunctionKeyword?_bounds hk
    have := f.next?_bounds h
    omega
  next => exact f.afterFunctionKeyword?_bounds h

/-- A function whose keyword stands at a place. -/
def functionAtKeyword (classes : List ClassDecl) (i : Nat) : Except ParseError FunctionDecl :=
  match f.functionParen? i with
  | none => .error (.parametersExpected (f.token i))
  | some paren =>
    if f.isChar paren '(' then
      match f.headerEnd? paren with
      | none => .error (.bodyExpected (f.token i))
      | some body =>
        let nameIndex := f.functionName? i
        let owner := nameIndex.bind fun _ =>
          innermost? (fun c : ClassDecl => (c.bodyStart, c.bodyEnd)) i classes
        let hasBody := f.isChar body '\x7b'
        .ok {
          name := nameIndex.map f.text
          className := owner.bind ClassDecl.name
          keywordIndex := i
          nameIndex := nameIndex
          paramsStart := paren
          bodyStart := if hasBody then some body else none
          endIndex := if hasBody then f.skipGroup body else body }
    else .error (.parametersExpected (f.token paren))

/-- A function keyword declares a function unless it stands in `use function`. -/
def declaresFunction (i : Nat) : Bool :=
  f.kind i == .keyword .functionWord && !f.prevIs i (.keyword .useWord)

/-- The functions of a file, in the order of their keywords. -/
def functions (classes : List ClassDecl) : Except ParseError (List FunctionDecl) :=
  ((List.range f.size).filter f.declaresFunction).mapM (f.functionAtKeyword classes)

end TokenStream

/-! ## Parsed files -/

/-- A file that could be parsed. -/
structure SourceFile extends TokenStream where
  name : String
  classes : List ClassDecl
  functions : List FunctionDecl

namespace SourceFile

/-- Parses the tokens of a file with a name. -/
def ofTokens (name : String) (tokens : List Token) : Except ParseError SourceFile := do
  let stream ← TokenStream.ofTokens tokens
  let classes ← stream.classes
  let functions ← stream.functions classes
  return { stream with name, classes, functions }

/-- Parses the source of a file with a name. -/
def ofSource (name source : String) : Except ParseError SourceFile := do
  ofTokens name (← tokenize source)

variable (f : SourceFile)

/-- The functions that have a name. -/
def methods : List FunctionDecl :=
  f.functions.filter fun function => function.name.isSome

/-- The innermost class whose body holds a place. -/
def classAt? (i : Nat) : Option ClassDecl :=
  innermost? (fun c : ClassDecl => (c.bodyStart, c.bodyEnd)) i f.classes

/-- The innermost function whose declaration holds a place. -/
def functionAt? (i : Nat) : Option FunctionDecl :=
  innermost? (fun d : FunctionDecl => (d.keywordIndex, d.endIndex)) i f.functions

/-- A place directly in the body of a class, outside its methods. -/
def inClassBody (i : Nat) : Bool :=
  match f.classAt? i with
  | none => false
  | some c => (f.functionAt? i).all fun d => d.keywordIndex < c.bodyStart

end SourceFile

end Unassigned
