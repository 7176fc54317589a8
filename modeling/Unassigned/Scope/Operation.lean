import Unassigned.Scope.Stack

/-!
# `Scope.Operation` — histories of a scope stack

The operations that a scope stack offers, as data. Levels may be negative here: -1 is the file scope, -2
the frame inside it, and so on. An operation that refers to a frame that is not there fails and changes
nothing, with one exception: a switch that is due is taken out of its slot before the frame is looked up.
-/

namespace Unassigned

/-- Why an operation on a scope stack fails. -/
inductive ScopeError where
  /-- There is no frame at this level. -/
  | noSuchFrame
  /-- The file scope cannot be popped. -/
  | fileScope
  /-- There is no frame at all to pop. -/
  | emptyStack
  deriving DecidableEq, Repr

/-- The wording of an error. -/
def ScopeError.message : ScopeError → String
  | .noSuchFrame => "list index out of range"
  | .fileScope => "cannot pop the file scope"
  | .emptyStack => "pop from empty list"

/-- An operation on a scope stack. -/
inductive ScopeOperation where
  | push (mode : Mode) (endIndex : Int)
  | pop
  /-- Keeps the outermost frames up to a depth; a negative depth counts from the innermost frame. -/
  | truncate (depth : Int)
  | getOrCreate (token : Token) (level : Int)
  | isDeclared (name : String) (level : Int)
  | schedule (trigger : Token) (effectiveAt : Int)
  | apply (index : Int)
  | depth
  | currentMode
  | scope (level : Int)
  | fileScope

/-- What an operation returns. A frame is returned with the frames below it. -/
inductive ScopeResult where
  | nothing
  | frame (frames : List Frame)
  | frames (dropped : List (List Frame))
  | found (v : Variable)
  | declared (known : Bool)
  | trigger (token : Option Token)
  | size (depth : Nat)
  | mode (mode : Mode)

namespace ScopeStack

variable (stack : ScopeStack)

/-- The place in the list of frames of a level, which may be negative. -/
def place? (level : Int) : Option Nat :=
  let place := if level < 0 then stack.depth + level else level
  if 0 ≤ place ∧ place < stack.depth then some place.toNat else none

/-- How many outermost frames a depth keeps, which may be negative. -/
def kept (depth : Int) : Nat :=
  min stack.depth (if depth < 0 then stack.depth + depth else depth).toNat

/-- All frames, each with the frames below it, the outermost first. -/
def layers : List (List Frame) :=
  (List.range stack.depth).reverse.map fun place => stack.frames.drop place

/-- Performs an operation. -/
def perform : ScopeOperation → ScopeStack × Except ScopeError ScopeResult
  | .push mode endIndex =>
    let frame : Frame := { mode, endIndex }
    (stack.push frame, .ok (.frame (frame :: stack.frames)))
  | .pop =>
    match stack.frames with
    | [] => (stack, .error .emptyStack)
    | [_] => (stack, .error .fileScope)
    | frames => (stack.pop, .ok (.frame frames))
  | .truncate depth =>
    let kept := stack.kept depth
    ({ stack with frames := stack.frames.drop (stack.depth - kept) },
      .ok (.frames (stack.layers.drop kept)))
  | .getOrCreate token level =>
    match stack.place? level with
    | none => (stack, .error .noSuchFrame)
    | some place =>
      let stack := stack.touch place token id
      (stack, .ok (.found ((stack.find? place token.text).getD { token })))
  | .isDeclared name level =>
    match stack.place? level with
    | none => (stack, .error .noSuchFrame)
    | some place => (stack, .ok (.declared (stack.declares place name)))
  | .schedule trigger effectiveAt => (stack.schedule trigger effectiveAt, .ok .nothing)
  | .apply index =>
    let (after, trigger) := stack.applyPending index
    if (stack.due? index).isSome ∧ stack.frames.isEmpty then (after, .error .noSuchFrame)
    else (after, .ok (.trigger trigger))
  | .depth => (stack, .ok (.size stack.depth))
  | .currentMode =>
    match stack.frames with
    | [] => (stack, .error .noSuchFrame)
    | frame :: _ => (stack, .ok (.mode frame.mode))
  | .scope level =>
    match stack.place? level with
    | none => (stack, .error .noSuchFrame)
    | some place => (stack, .ok (.frame (stack.frames.drop place)))
  | .fileScope =>
    match stack.frames.getLast? with
    | none => (stack, .error .noSuchFrame)
    | some frame => (stack, .ok (.frame [frame]))

end ScopeStack

end Unassigned
