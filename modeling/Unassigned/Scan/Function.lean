import Unassigned.Scan.Call

/-!
# `Scan.Function` — functions, closures and arrow functions

A function has a strict scope of its own, in which its parameters are assigned. A closure also has what it
captures: by value a variable that must be known outside, by reference one that becomes known outside too.
An arrow function sees all of the scope around it.
-/

namespace Unassigned

namespace TokenStream

variable (f : TokenStream)

/-- What follows a function's parameters and captures that close at a place, over the return type. -/
def functionStop? (close : Nat) : Option Nat :=
  match f.next? close with
  | some n => if f.isChar n ':' then f.afterReturnType? n else some n
  | none => none

theorem functionStop?_bounds {close j : Nat} (h : f.functionStop? close = some j) :
    close < j ∧ j < f.size := by
  unfold functionStop? at h
  split at h
  next n hn =>
    have := f.next?_bounds hn
    split at h
    · have := f.search?_bounds h; omega
    · simp at h; omega
  next => simp at h

/-- The double arrow of an arrow function whose parameters close at a place. -/
def arrowStop? (close : Nat) : Option Nat :=
  (f.search? (fun j => f.isCharOf j ['(', '\x7b'])
    (fun j => f.kind j == .doubleArrow || f.isChar j ';') close).filter fun j =>
      f.kind j == .doubleArrow

theorem arrowStop?_bounds {close j : Nat} (h : f.arrowStop? close = some j) :
    close < j ∧ j < f.size := by
  obtain ⟨h, _⟩ := Option.filter_eq_some_iff.1 h
  exact f.search?_bounds h

/-- Assigns the parameters in the list that opens at a place, in the current scope. -/
def declareParameters (paren : Nat) : Plan Unit :=
  (f.arguments paren).forM fun first =>
    let parameter := f.parameterAt first
    match parameter.varIndex with
    | none => .fail (.parameterExpected (f.token first))
    | some i => .emit (.bindParameter (f.token i) parameter.isRef)

/-- Binds one captured variable of a closure, whose scope is the current one. -/
def captureVariable (paren first : Nat) : Plan Unit :=
  let isRef := f.isChar first '&'
  match f.withoutAmpersand first with
  | none => .fail (.captureExpected (f.token paren))
  | some i =>
    if f.kind i == .var then
      let t := f.token i
      .emitAll [if isRef then .declareOuter t else .checkOuter t, .assign t (.captured isRef), .consume i]
    else .fail (.captureExpected (f.token i))

/-- Binds what a closure captures in the list that opens at a place. -/
def captureVariables (paren : Nat) : Plan Unit :=
  (f.arguments paren).forM fun first => f.captureVariable paren first

/-- The keyword `use` of the captures of a closure whose parameters close at a place; a function with a
    name has none. -/
def useKeyword? (keyword close : Nat) : Option Nat :=
  if (f.functionName? keyword).isSome then none
  else (f.next? close).filter fun i => f.kind i == .keyword .useWord

/-- The captures of a function whose parameters close at a place. Returns the closing parenthesis of the
    captures, or of the parameters if there are none. -/
def handleCaptures (keyword close : Nat) : Plan Nat :=
  match f.useKeyword? keyword close with
  | none => pure close
  | some i => do
    let paren ← f.expect (f.next? i) '(' .closureHeader keyword
    f.captureVariables paren
    return f.skipGroup paren

theorem le_of_handleCaptures {keyword close stop : Nat}
    (h : (f.handleCaptures keyword close).result = .ok stop) : close ≤ stop := by
  unfold handleCaptures at h
  split at h
  · simp at h; omega
  next i hi =>
    have hi : f.next? close = some i := by
      unfold useKeyword? at hi
      split at hi
      · simp at hi
      · exact (Option.filter_eq_some_iff.1 hi).1
    obtain ⟨paren, hparen, h⟩ := Plan.result_bind_eq_ok.1 h
    obtain ⟨_, _, h⟩ := Plan.result_bind_eq_ok.1 h
    have := f.next?_bounds hi
    have := f.next?_bounds (f.eq_of_expect hparen).1
    have := f.le_skipGroup paren
    simp at h; omega

/-- The scope of a function ends with its body, whose brace stands at a place; a declaration without body
    leaves no scope. Returns the brace or semicolon. -/
def handleBody (keyword : Nat) (place : Option Nat) : Plan Nat :=
  match place with
  | none => .fail (.bodyExpected none (f.token keyword))
  | some stop =>
    if f.isChar stop ';' then do
      .emit .discard
      return stop
    else if f.isChar stop '\x7b' then do
      .emit (.endAt (f.skipGroup stop))
      return stop
    else .fail (.bodyExpected (some (f.token stop)) (f.token keyword))

theorem eq_of_handleBody {keyword stop : Nat} {place : Option Nat}
    (h : (f.handleBody keyword place).result = .ok stop) : place = some stop := by
  unfold handleBody at h
  split at h
  · simp at h
  next n =>
    split at h
    · obtain ⟨_, _, h⟩ := Plan.result_bind_eq_ok.1 h
      simpa using h
    · split at h
      · obtain ⟨_, _, h⟩ := Plan.result_bind_eq_ok.1 h
        simpa using h
      · simp at h

/-- The keyword of a function. The parameters and captures are bound in a new strict scope, which lasts
    to the end of the body. Returns the brace or semicolon. -/
def handleFunction (i : Nat) : Plan Nat :=
  if f.prevIs i (.keyword .useWord) then pure i
  else do
    .emit .openFunction
    let paren ← f.expect (f.functionParen? i) '(' .functionHeader i
    f.declareParameters paren
    let close ← f.handleCaptures i (f.skipGroup paren)
    f.handleBody i (f.functionStop? close)

theorem le_of_handleFunction {i stop : Nat} (h : (f.handleFunction i).result = .ok stop) :
    i ≤ stop := by
  unfold handleFunction at h
  split at h
  · simp at h; omega
  · obtain ⟨_, _, h⟩ := Plan.result_bind_eq_ok.1 h
    obtain ⟨paren, hparen, h⟩ := Plan.result_bind_eq_ok.1 h
    obtain ⟨_, _, h⟩ := Plan.result_bind_eq_ok.1 h
    obtain ⟨close, hclose, h⟩ := Plan.result_bind_eq_ok.1 h
    have := f.functionParen?_bounds (f.eq_of_expect hparen).1
    have := f.le_skipGroup paren
    have := f.le_of_handleCaptures hclose
    have := f.functionStop?_bounds (f.eq_of_handleBody h)
    omega

/-- The keyword of an arrow function. Its scope lasts to the end of its expression. Returns the double
    arrow. -/
def handleArrowFunction (i : Nat) : Plan Nat := do
  let paren ← f.expect (f.afterFunctionKeyword? i) '(' .arrowFunction i
  match f.arrowStop? (f.skipGroup paren) with
  | none => .fail (.doubleArrowExpected (f.token i))
  | some stop =>
    .emit (.openArrow (f.expressionEnd stop))
    f.declareParameters paren
    return stop

theorem le_of_handleArrowFunction {i stop : Nat}
    (h : (f.handleArrowFunction i).result = .ok stop) : i ≤ stop := by
  obtain ⟨paren, hparen, h⟩ := Plan.result_bind_eq_ok.1 h
  split at h
  · simp at h
  next n hn =>
    obtain ⟨_, _, h⟩ := Plan.result_bind_eq_ok.1 h
    obtain ⟨_, _, h⟩ := Plan.result_bind_eq_ok.1 h
    have := f.afterFunctionKeyword?_bounds (f.eq_of_expect hparen).1
    have := f.le_skipGroup paren
    have := f.arrowStop?_bounds hn
    simp at h; omega

end TokenStream

end Unassigned
