/-!
# `Signature.Basic` — which arguments of a function are passed by reference

The positions of by-reference arguments count from zero. They are kept ascending and without repetition.
A configured position may be negative: it then counts from the last argument of a call.
-/

namespace Unassigned

/-- A variadic by-reference parameter stands for every position from its own up to, but without, this
    one. -/
def maxVariadicPosition : Nat := 10

/-- Adds a position to an ascending list of positions. -/
def insertPosition (p : Int) : List Int → List Int
  | [] => [p]
  | q :: rest =>
    if p < q then p :: q :: rest
    else if p = q then q :: rest
    else q :: insertPosition p rest

/-- The positions of a list, ascending and without repetition. -/
def positionSet (positions : List Int) : List Int :=
  positions.foldl (fun set p => insertPosition p set) []

/-- The by-reference arguments of one function or method. -/
structure Signature where
  /-- The function's name, `Class::method`, or `?::method` for a method of any class. -/
  name : String
  refs : List Int := []
  /-- The by-reference arguments must have a value before the call. -/
  doesNotInitialize : Bool := false
  deriving DecidableEq, Repr

/-- The positions that a by-reference parameter stands for. -/
def refPositions (position : Nat) (isVariadic : Bool) : List Int :=
  if isVariadic then
    (List.range (maxVariadicPosition - position)).map fun offset => (position + offset : Nat)
  else [(position : Int)]

end Unassigned
