import Unassigned.Ordered
import Unassigned.Token.Basic

/-!
# `Scope.Basic` — what a scope knows of its variables

A frame is one scope: the file, a function or an arrow function. It maps names to variables, in the order
in which the names became known. The frame of an arrow function starts with every name of the enclosing
frame bound to the enclosing variable itself (`Binding.enclosing`): what the arrow function does to it
happens to the enclosing variable.

A frame is strict when every assignment in it is visible, and relaxed when other code may have set
variables in it, as in the file scope or after an `include`.
-/

namespace Unassigned

/-- Whether a variable has been given a value, and whether the value has been read. -/
inductive Status where
  | unknown
  | assigned
  | used
  deriving DecidableEq, Repr

/-- Whether a scope can have variables that no statement in it sets. -/
inductive Mode where
  | strict
  | relaxed
  deriving DecidableEq, Repr

/-- A variable of a scope; `token` is its most recent occurrence. -/
structure Variable where
  token : Token
  status : Status := .unknown
  isRefParam : Bool := false
  isCatchVar : Bool := false
  isGlobal : Bool := false
  deriving DecidableEq, Repr

/-- The name of a variable, with its dollar sign. -/
def Variable.name (v : Variable) : String :=
  v.token.text

/-- What a name stands for in a frame. -/
inductive Binding where
  /-- A variable of this frame. -/
  | own (v : Variable)
  /-- The variable of this name in the frame below. -/
  | enclosing
  deriving DecidableEq, Repr

/-- One scope. It is dropped at the token `endIndex`. -/
structure Frame where
  mode : Mode
  endIndex : Int := -1
  bindings : List (String × Binding) := []
  /-- The classes of variables that annotations tell. -/
  types : List (String × String) := []
  deriving DecidableEq, Repr

namespace Frame

/-- The name is known in the frame. -/
def declares (frame : Frame) (name : String) : Bool :=
  Ordered.hasKey name frame.bindings

/-- The names known in the frame, in the order in which they became known. -/
def names (frame : Frame) : List String :=
  Ordered.keys frame.bindings

/-- Binds the name of a variable to it. -/
def bind (frame : Frame) (v : Variable) : Frame :=
  { frame with bindings := Ordered.insert v.name (.own v) frame.bindings }

/-- Notes the class of a variable. -/
def noteType (frame : Frame) (name type : String) : Frame :=
  { frame with types := Ordered.insert name type frame.types }

/-- The frame of an arrow function inside this frame: all names of this frame are known in it. -/
def inner (frame : Frame) (endIndex : Int) : Frame where
  mode := frame.mode
  endIndex := endIndex
  bindings := frame.bindings.map fun (name, _) => (name, .enclosing)
  types := frame.types

end Frame

/-! ## Variables seen from a frame -/

/-- The variable that a name stands for in the first of the frames. -/
def findVariable? (name : String) : List Frame → Option Variable
  | [] => none
  | frame :: below =>
    match frame.bindings.lookup name with
    | some (.own v) => some v
    | some .enclosing => findVariable? name below
    | none => none

/-- Changes the variable that a name stands for in the first of the frames, where it lives. -/
def modifyVariable (name : String) (change : Variable → Variable) : List Frame → List Frame
  | [] => []
  | frame :: below =>
    match frame.bindings.lookup name with
    | some (.own v) =>
      { frame with bindings := Ordered.insert name (.own (change v)) frame.bindings } :: below
    | some .enclosing => frame :: modifyVariable name change below
    | none => frame :: below

/-- Makes a token the most recent occurrence of its variable in the first of the frames, which is created
    if need be, and then changes the variable. -/
def touchVariable (token : Token) (change : Variable → Variable) : List Frame → List Frame
  | [] => []
  | frame :: below =>
    if frame.declares token.text then
      modifyVariable token.text (fun v => change { v with token := token }) (frame :: below)
    else frame.bind (change { token := token }) :: below

/-- The variables known in the first of the frames, in order. -/
def variablesOf (frames : List Frame) : List Variable :=
  match frames with
  | [] => []
  | frame :: _ => frame.names.filterMap fun name => findVariable? name frames

end Unassigned
