import Unassigned.Scan.Command

/-!
# `Scan.Pattern` — destructuring patterns

A pattern `list(...)` or `[...]` on the left of an assignment, or in a `foreach`, binds the variables in its
slots at every depth. Keys, indexes and arguments inside it are not slots.
-/

namespace Unassigned

namespace TokenStream

variable (f : TokenStream)

/-- The token before a target of an assignment, an ampersand apart. -/
def beforeTarget? (i : Nat) : Option Nat :=
  match f.prev? i with
  | some p => if f.isChar p '&' then f.prev? p else some p
  | none => none

/-- The variable at a place stands where a slot of a pattern starts. -/
def startsSlot (i : Nat) : Bool :=
  (f.beforeTarget? i).any fun p => f.isCharOf p ['(', '[', ','] || f.kind p == .doubleArrow

/-- The variable at a place is a slot of a pattern; tells whether it has an index. -/
def slot? (i : Nat) : Option Bool :=
  let (after, isIndexed) := f.afterIndexes i
  if f.kind i == .var && f.startsSlot i && after.any fun j => f.isCharOf j [',', ')', ']'] then
    some isIndexed
  else none

/-- Binds the variable at a place, a slot of a pattern. Setting an element of an array that is not known
    creates the array. -/
def bindSlot (i : Nat) (isIndexed : Bool) : List Command :=
  let t := f.token i
  [if isIndexed then .autovivify t .arrayAutovivification else .assign t .plain, .consume i]

/-- Binds the slots of a pattern from a place on up to its closing bracket. -/
def bindPattern (close i : Nat) : List Command :=
  if i < close then
    if f.isCharOf i ['[', '('] && f.followsOperand i then bindPattern close (f.skipGroup i + 1)
    else
      match f.slot? i with
      | some isIndexed => f.bindSlot i isIndexed ++ bindPattern close (i + 1)
      | none => bindPattern close (i + 1)
  else []
termination_by close - i
decreasing_by
  · have hskip := f.le_skipGroup i
    omega
  · omega
  · omega

/-- Binds the slots of the pattern whose opening bracket stands at a place. -/
def bindGroup (opening : Nat) : List Command :=
  f.bindPattern (f.skipGroup opening) (opening + 1)

/-- The keyword `list`. -/
def handleList (i : Nat) : Plan Unit := do
  let paren ← f.expect (f.next? i) '(' .listPattern i
  .emitAll (f.bindGroup paren)

/-- An opening square bracket: a pattern if it follows no operand and an equals sign follows the
    group. -/
def handleBracket (i : Nat) : List Command :=
  if !f.followsOperand i && f.nextIs (f.skipGroup i) '=' then f.bindGroup i else []

end TokenStream

end Unassigned
