import Unassigned.Scan.Call
import Unassigned.Scan.Pattern

/-!
# `Scan.Loop` — loops

A read in a loop may see an assignment that stands after it, made in an earlier round. So at a loop's
keyword every variable that is plainly assigned in the loop becomes known. A `foreach` then binds its
targets.
-/

namespace Unassigned

/-- The places from `first` to `last`. -/
def placesBetween (first last : Nat) : List Nat :=
  List.range' first (last + 1 - first)

namespace TokenStream

variable (f : TokenStream)

/-- The keywords that start a loop. -/
def isLoopKeyword : Kind → Bool
  | .keyword .forWord | .keyword .foreachWord | .keyword .whileWord | .keyword .doWord => true
  | _ => false

/-- The keyword that ends the body after a colon of a loop. -/
def loopEndKeyword? : Kind → Option Kind
  | .keyword .forWord => some (.keyword .endforWord)
  | .keyword .foreachWord => some (.keyword .endforeachWord)
  | .keyword .whileWord => some (.keyword .endwhileWord)
  | _ => none

/-- The loop keyword at a place has its body after a colon. -/
def opensColonBody (i : Nat) : Bool :=
  (f.next? i).any fun paren => f.isChar paren '(' && f.nextIs (f.skipGroup paren) ':'

/-- The keyword that closes a loop whose body follows a colon, among the tokens at `places`, with `depth`
    such loops open. -/
def colonBodyEnd? (loop closing : Kind) (depth : Nat) : List Nat → Option Nat
  | [] => none
  | i :: rest =>
    if f.kind i == loop then
      colonBodyEnd? loop closing (if f.opensColonBody i then depth + 1 else depth) rest
    else if f.kind i == closing then
      if depth = 1 then some i else colonBodyEnd? loop closing (depth - 1) rest
    else colonBodyEnd? loop closing depth rest

/-- The end of the condition `while (...)` that follows a place. -/
def whileCondition? (i : Nat) : Option Nat := do
  let keyword ← f.next? i
  let paren ← f.next? keyword
  if f.kind keyword == .keyword .whileWord && f.isChar paren '(' then some (f.skipGroup paren) else none

/-- The end of a `do` loop, its condition included. -/
def doLoopEnd? (i : Nat) : Option Nat := do
  let body ← f.next? i
  let last ← if f.isChar body '\x7b' then some (f.skipGroup body) else f.statementEnd? i
  return (f.whileCondition? last).getD last

/-- The end of a `for`, `foreach` or `while` loop. -/
def headedLoopEnd? (i : Nat) : Option Nat := do
  let paren ← f.next? i
  if !f.isChar paren '(' then none
  else
    let close := f.skipGroup paren
    match f.next? close with
    | none => some close
    | some n =>
      if f.isChar n '\x7b' then some (f.skipGroup n)
      else if f.isChar n ';' then some n
      else if f.isChar n ':' then
        (loopEndKeyword? (f.kind i)).bind fun closing =>
          f.colonBodyEnd? (f.kind i) closing 0 (placesBetween i (f.size - 1))
      else f.statementEnd? close

/-- The last token of the loop whose keyword stands at a place. -/
def loopEnd? (i : Nat) : Option Nat :=
  if f.kind i == .keyword .doWord then f.doLoopEnd? i else f.headedLoopEnd? i

/-- The variable at a place is a target of a `foreach`. -/
def isForeachTarget (i : Nat) : Bool :=
  (f.beforeTarget? i).any fun p =>
    f.kind p == .keyword .asWord ||
      (f.kind p == .doubleArrow && (f.prev? p).any fun key =>
        f.kind key == .var && f.prevIs key (.keyword .asWord))

end TokenStream

/-- The variable at `i` is plainly assigned in the loop whose keyword stands at `loop`: in the same
    function, not as a property, by an equals sign or as the target of a `foreach`. -/
def SourceFile.isLoopAssignment (f : SourceFile) (loop i : Nat) : Bool :=
  f.kind i == .var
    && f.functionAt? i == f.functionAt? loop
    && !f.inClassBody i
    && !f.prevAny i (fun kind => kind == .char '$' || kind.isMemberAccess)
    && (f.nextIs i '=' || f.isForeachTarget i)

/-- The variables that are plainly assigned between a loop's keyword and its end become known. -/
def SourceFile.predeclare (f : SourceFile) (loop last : Nat) : List Command :=
  ((placesBetween loop last).filter (f.isLoopAssignment loop)).map fun i => .declare (f.token i)

namespace TokenStream

variable (f : TokenStream)

/-- Binds the target of a `foreach` that starts at a place. Returns the token after it. -/
def bindForeachTarget (place : Option Nat) : List Command × Option Nat :=
  match place.bind f.withoutAmpersand with
  | none => ([], none)
  | some i =>
    if f.kind i == .var then
      match f.next? i with
      | none => ([], none)
      | some n =>
        if f.isChar n ')' || f.kind n == .doubleArrow then
          ([.assign (f.token i) .plain, .consume i], some n)
        else ([], some n)
    else if f.kind i == .keyword .listWord || f.isChar i '[' then
      match if f.kind i == .keyword .listWord then f.next? i else some i with
      | none => ([], none)
      | some opening =>
        if f.isCharOf opening ['[', '('] then
          (f.bindGroup opening, f.next? (f.skipGroup opening))
        else ([], some opening)
    else ([], f.next? i)

/-- Binds the targets of a `foreach` after the keyword `as` at a place. -/
def bindForeachTargets (i : Nat) : List Command :=
  let (commands, after) := f.bindForeachTarget (f.next? i)
  match after with
  | some arrow =>
    if f.kind arrow == .doubleArrow then
      commands ++ (f.bindForeachTarget (f.next? arrow)).1
    else commands
  | none => commands

/-- Binds the targets of the `foreach` whose keyword stands at a place. -/
def bindForeach (i : Nat) : Plan Unit := do
  let paren ← f.expect (f.next? i) '(' .foreachLoop i
  let close := f.skipGroup paren
  match f.searchOutside? (fun j => close ≤ j || f.kind j == .keyword .asWord) paren with
  | none => .fail (.asExpected (f.token i))
  | some stop =>
    if f.kind stop == .keyword .asWord then .emitAll (f.bindForeachTargets stop)
    else .fail (.asExpected (f.token i))

end TokenStream

/-- The keyword of a loop. -/
def SourceFile.handleLoop (f : SourceFile) (i : Nat) : Plan Unit := do
  .emitAll (((f.loopEnd? i).map fun last => f.predeclare i last).getD [])
  if f.kind i == .keyword .foreachWord then f.bindForeach i else pure ()

end Unassigned
