import Unassigned.Scan.Call

/-!
# `Scan.Statement` — variables and the statements that bind them

The occurrence of a variable is an assignment, an update or a read, by what stands around it. The
statements `catch`, `global` and `static` make variables known; `isset` and `empty` do so in a relaxed
scope. A variable variable that is assigned, and `eval`, make the scope relaxed.
-/

namespace Unassigned

/-! ## Code passed to `eval` -/

/-- The name in an assignment at the start of a text, after its dollar sign, and the length up to the
    equals sign. A comparison or an array arrow is no assignment. -/
def assignedName? (s : List Char) : Option (List Char × Nat) :=
  match s with
  | c :: rest =>
    let length := runLength DocComment.isNameChar rest
    let blanks := runLength Text.isBlank (rest.drop length)
    match (rest.drop length).drop blanks with
    | '=' :: after =>
      if DocComment.isNameStart c && !startsIn (fun d => d == '=' || d == '>') after then
        some (c :: rest.take length, 2 + length + blanks)
      else none
    | _ => none
  | [] => none

/-- The names of the variables that are assigned in a text of code, in order. -/
def assignedNames (s : List Char) : List String :=
  match s with
  | [] => []
  | c :: rest =>
    match if c = '$' then assignedName? rest else none with
    | some (name, length) => String.ofList ('$' :: name) :: assignedNames (rest.drop length)
    | none => assignedNames rest
termination_by s.length
decreasing_by all_goals (simp; try omega)

namespace TokenStream

variable (f : TokenStream)

/-- The variable of an item of a `global` statement that starts at a place: the item `$name`, or the
    holder of the name in `$$name`. -/
def globalVariable? (i : Nat) : Option Nat :=
  if f.kind i == .var then some i
  else if f.isChar i '$' then (f.next? i).filter fun j => f.kind j == .var
  else none

theorem le_of_globalVariable? {i j : Nat} (h : f.globalVariable? i = some j) : i ≤ j := by
  unfold globalVariable? at h
  split at h
  · simp at h; omega
  · split at h
    · obtain ⟨hnext, _⟩ := Option.filter_eq_some_iff.1 h
      have := f.next?_bounds hnext
      omega
    · simp at h

/-- The variable in parentheses that follows a place, if it stands there alone. -/
def issetVariable? (i : Nat) : Option Nat := do
  let paren ← f.next? i
  let j ← f.next? paren
  if f.isChar paren '(' && f.kind j == .var && f.nextIs j ')' then some j else none

/-! ## Variables -/

/-- A doc comment: its annotations hold to the end of the statement that follows. -/
def handleDocComment (i : Nat) : List Command :=
  let declared := DocComment.declarations (f.text i)
  if declared.isEmpty then [] else [.annotate declared (f.statementEnd i)]

/-- An operator that updates the variable before it. -/
def isUpdate : Kind → Bool
  | .increment | .decrement | .concatAssign | .plusAssign => true
  | _ => false

/-- An operator that can stand before the variable it updates. -/
def isIncDec : Kind → Bool
  | .increment | .decrement => true
  | _ => false

/-- The occurrence of a variable that is not a property: an assignment, an update, a statement of its own
    or a read. -/
def handleOccurrence (i : Nat) : Command :=
  let t := f.token i
  let (after, isIndexed) := f.afterIndexes i
  let next := after.map f.kind
  let created := if isIndexed then Finding.arrayAutovivification else .scalarAutovivification
  let isAlone := next == some (.char ';') && !isIndexed
    && f.prevAny i (fun kind => kind == .char ';' || kind == .char '\x7b')
  if next == some (.char '=') then
    if isIndexed then .autovivify t .arrayAutovivification else .assign t .plain
  else if next == some .coalesceAssign then .coalesce t
  else if next.any isUpdate || f.prevAny i isIncDec then .update t created isAlone
  else if isAlone then .standAlone t
  else .read t

/-- The name in `${name}` inside a string reads the variable of this name. -/
def handleStringVarName (i : Nat) : Command :=
  let t := f.token i
  .read { t with kind := .var, text := "$" ++ t.text }

/-- A dollar sign on its own: `$$name = ...` and `${...} = ...` set a variable that is not known by
    name. -/
def handleDollar (i : Nat) : List Command :=
  match f.next? i with
  | none => []
  | some n =>
    if f.kind n == .var || f.isChar n '\x7b' then
      if (f.afterIndexes (f.skipGroup n)).1.any fun j => f.isChar j '=' then
        [.schedule (f.token n) (f.statementEnd n)]
      else []
    else []

/-! ## Statements -/

/-- A keyword that includes another file. -/
def handleInclude (i : Nat) : List Command :=
  match f.statementEnd? i with
  | some stop => [.schedule (f.token i) stop]
  | none => []

/-- The first token of the code that the `eval` at a place is given. -/
def evalCode? (i : Nat) : Option Nat :=
  match f.next? i with
  | some n => if f.isChar n '(' then f.next? n else some n
  | none => none

/-- The variables that are assigned in the literal at a place. -/
def evalVariables (i : Nat) : List Token :=
  if f.kind i == .stringLiteral then
    (assignedNames (f.text i).toList).map fun name => { f.token i with kind := .var, text := name }
  else []

/-- The keyword `eval`. Variables assigned in a literal become known. -/
def handleEval (i : Nat) : List Command :=
  .schedule (f.token i) (f.statementEnd i)
    :: (((f.evalCode? i).map f.evalVariables).getD []).map .declare

/-- A token of the types in a `catch`. -/
def isCatchType : Kind → Bool
  | .name | .nsSeparator | .char '|' => true
  | _ => false

/-- What follows the types of a `catch`, at a place: an optional variable and the closing parenthesis,
    which is returned. -/
def handleCaught (keyword : Nat) (place : Option Nat) : Plan Nat :=
  match place with
  | none => f.expect none ')' .catchClause keyword
  | some after =>
    if f.kind after == .var then do
      .emit (.assign (f.token after) .caught)
      f.expect (f.next? after) ')' .catchClause keyword
    else f.expect (some after) ')' .catchClause keyword

theorem le_of_handleCaught {keyword i stop : Nat} {place : Option Nat}
    (hplace : ∀ j, place = some j → i ≤ j)
    (h : (f.handleCaught keyword place).result = .ok stop) : i ≤ stop := by
  unfold handleCaught at h
  split at h
  · exact absurd (f.eq_of_expect h).1 (by simp)
  next after =>
    have hafter := hplace after rfl
    split at h
    · obtain ⟨_, _, h⟩ := Plan.result_bind_eq_ok.1 h
      have := f.next?_bounds (f.eq_of_expect h).1
      omega
    · have := (f.eq_of_expect h).1
      simp at this; omega

/-- The keyword `catch`, with types and an optional variable. Returns the closing parenthesis. -/
def handleCatch (i : Nat) : Plan Nat := do
  let paren ← f.expect (f.next? i) '(' .catchClause i
  match f.next? paren with
  | none => .fail (.exceptionTypeExpected (f.token i))
  | some first =>
    if isCatchType (f.kind first) then f.handleCaught i (f.skipKinds isCatchType first)
    else .fail (.exceptionTypeExpected (f.token first))

theorem le_of_handleCatch {i stop : Nat} (h : (f.handleCatch i).result = .ok stop) : i ≤ stop := by
  obtain ⟨paren, hparen, h⟩ := Plan.result_bind_eq_ok.1 h
  have := f.next?_bounds (f.eq_of_expect hparen).1
  split at h
  · simp at h
  next first hfirst =>
    have := f.next?_bounds hfirst
    split at h
    · refine f.le_of_handleCaught (fun j hj => ?_) h
      have := f.le_of_skipKinds hj
      omega
    · simp at h

/-- The item of a `global` statement that starts at a place and whose variable stands at `holder`. -/
def globalItem (i holder : Nat) : List Command :=
  let t := f.token holder
  if f.kind i == .var then [.assign t .imported] else [.check t, .schedule t (f.statementEnd holder)]

/-- The items of a `global` statement from a place on. Returns the token that ends the statement. -/
def handleGlobalItems (keyword i : Nat) : Plan Nat :=
  match _h : f.globalVariable? i with
  | none =>
    let blamed := if f.isChar i '$' then (f.next? i).getD i else i
    .fail (.badGlobal (f.token blamed))
  | some holder => do
    .emitAll (f.globalItem i holder)
    match _hafter : f.next? holder with
    | none => .fail (.badGlobal (f.token keyword))
    | some after =>
      if f.isChar after ',' then
        match _hnext : f.next? after with
        | none => .fail (.badGlobal (f.token keyword))
        | some next => handleGlobalItems keyword next
      else if f.isChar after ';' || f.kind after == .closeTag then pure after
      else .fail (.badGlobal (f.token after))
termination_by f.size - i
decreasing_by
  have hafter := f.next?_bounds _hafter
  have hnext := f.next?_bounds _hnext
  have hholder := f.le_of_globalVariable? _h
  omega

theorem le_of_handleGlobalItems {keyword i stop : Nat}
    (h : (f.handleGlobalItems keyword i).result = .ok stop) : i ≤ stop := by
  fun_induction handleGlobalItems f keyword i with
  | case1 => simp at h
  | case2 i holder hholder ih =>
    have := f.le_of_globalVariable? hholder
    obtain ⟨_, _, h⟩ := Plan.result_bind_eq_ok.1 h
    split at h
    · simp at h
    next after hafter =>
      have := f.next?_bounds hafter
      split at h
      · split at h
        · simp at h
        next next hnext =>
          have := f.next?_bounds hnext
          have := ih after hafter next hnext h
          omega
      · split at h
        · simp at h; omega
        · simp at h

/-- The keyword `global`. -/
def handleGlobal (i : Nat) : Plan Nat :=
  match f.next? i with
  | none => .fail (.badGlobal (f.token i))
  | some first => f.handleGlobalItems i first

theorem le_of_handleGlobal {i stop : Nat} (h : (f.handleGlobal i).result = .ok stop) :
    i ≤ stop := by
  unfold handleGlobal at h
  split at h
  · simp at h
  next first hfirst =>
    have := f.next?_bounds hfirst
    have := f.le_of_handleGlobalItems h
    omega

/-- The keywords `isset` and `empty` with a variable alone. -/
def handleIsset (i : Nat) : List Command :=
  match f.issetVariable? i with
  | none => []
  | some j => [.test (f.token j)]

end TokenStream

namespace SourceFile

variable (f : SourceFile)

/-- A variable. Declarations of properties and static properties are not variables of a scope; in `$$x`
    and `$obj->$x` the variable is only read. -/
def handleVariable (i : Nat) : List Command :=
  if f.inClassBody i || f.prevIs i .doubleColon then []
  else
    let t := f.token i
    let isRead := f.prevAny i fun kind => kind == .char '$' || kind.isObjectOperator
    [.applyDocComment t, if isRead then .read t else f.handleOccurrence i]

/-- The keyword `static`: a declaration if it stands in a function body, a variable follows and it belongs
    to no `new` or `instanceof`. The initial values are scanned as ordinary expressions. -/
def handleStatic (i : Nat) : Plan Unit :=
  if (f.functionAt? i).isNone || f.inClassBody i then pure ()
  else
    match f.next? i with
    | none => pure ()
    | some first =>
      if f.kind first != .var
          || f.prevIs i (.keyword .newWord) || f.prevIs i (.keyword .instanceofWord) then pure ()
      else
        (f.elements [','] [';'] first).forM fun j =>
          if f.kind j == .var then .emitAll [.assign (f.token j) .plain, .consume j]
          else .fail (.badStatic (f.token j))

end SourceFile

end Unassigned
