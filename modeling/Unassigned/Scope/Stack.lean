import Unassigned.Scope.Basic

/-!
# `Scope.Stack` — the scopes around a place

The frames around a place form a stack, the innermost first and the file scope last. A statement such as
`include` makes its scope relaxed once the statement is over: the switch is scheduled, and applied when
the scan reaches the end of the statement. There is one slot for it, so a later trigger replaces an
earlier one that is still waiting.
-/

namespace Unassigned

/-- A switch to relaxed mode that waits for the token at `effectiveAt`. -/
structure PendingSwitch where
  trigger : Token
  effectiveAt : Int
  deriving DecidableEq, Repr

/-- The frames around a place, the innermost first, and the switch that is waiting. -/
structure ScopeStack where
  frames : List Frame := [{ mode := .relaxed }]
  pending : Option PendingSwitch := none
  deriving DecidableEq, Repr

namespace ScopeStack

variable (stack : ScopeStack)

/-- The number of frames. -/
def depth : Nat :=
  stack.frames.length

/-- The frame `depth` levels around the innermost one. -/
def frame? (depth : Nat) : Option Frame :=
  stack.frames[depth]?

/-- The mode of the frame `depth` levels around the innermost one. -/
def modeAt (depth : Nat) : Mode :=
  ((stack.frame? depth).map Frame.mode).getD .relaxed

/-- The name is known in the frame at this level. -/
def declares (depth : Nat) (name : String) : Bool :=
  (stack.frame? depth).any fun frame => frame.declares name

/-- The variable that a name stands for in the frame at this level. -/
def find? (depth : Nat) (name : String) : Option Variable :=
  findVariable? name (stack.frames.drop depth)

/-- Applies a change to the frames from this level outwards. -/
def modifyFrom (depth : Nat) (change : List Frame → List Frame) : ScopeStack :=
  { stack with frames := stack.frames.take depth ++ change (stack.frames.drop depth) }

/-- Applies a change to the innermost frame. -/
def modifyTop (change : Frame → Frame) : ScopeStack :=
  { stack with frames := stack.frames.modifyHead change }

/-- Makes a token the most recent occurrence of its variable in the frame at this level, and changes the
    variable. -/
def touch (depth : Nat) (token : Token) (change : Variable → Variable) : ScopeStack :=
  stack.modifyFrom depth (touchVariable token change)

/-- Changes the variable that a name stands for in the frame at this level. -/
def modifyVar (depth : Nat) (name : String) (change : Variable → Variable) : ScopeStack :=
  stack.modifyFrom depth (modifyVariable name change)

/-- The stack with one more frame. -/
def push (frame : Frame) : ScopeStack :=
  { stack with frames := frame :: stack.frames }

/-- The stack without its innermost frame. -/
def pop : ScopeStack :=
  { stack with frames := stack.frames.tail }

/-- Drops, from the innermost outwards, the frames that end at or before a token; the file scope stays. -/
def dropFinishedFrames (index : Nat) : List Frame → List Frame
  | frame :: next :: rest =>
    if frame.endIndex ≤ index then dropFinishedFrames index (next :: rest)
    else frame :: next :: rest
  | frames => frames

/-- Drops the frames that end at or before a token. -/
def dropFinished (index : Nat) : ScopeStack :=
  { stack with frames := dropFinishedFrames index stack.frames }

/-- Schedules a switch to relaxed mode, in place of one that is waiting. -/
def schedule (trigger : Token) (effectiveAt : Int) : ScopeStack :=
  { stack with pending := some ⟨trigger, effectiveAt⟩ }

/-- The waiting switch, if it is due at a token. -/
def due? (index : Int) : Option PendingSwitch :=
  stack.pending.filter fun switch => switch.effectiveAt ≤ index

/-- Applies a switch that is due to the innermost frame. Returns its trigger if the frame was strict. -/
def applyPending (index : Int) : ScopeStack × Option Token :=
  match stack.due? index with
  | none => (stack, none)
  | some switch =>
    let stack := { stack with pending := none }
    match stack.modeAt 0 with
    | .relaxed => (stack, none)
    | .strict =>
      (stack.modifyTop fun frame => { frame with mode := .relaxed }, some switch.trigger)

end ScopeStack

end Unassigned
