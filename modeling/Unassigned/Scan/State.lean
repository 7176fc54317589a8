import Unassigned.Defect
import Unassigned.DocComment
import Unassigned.Scan.Error
import Unassigned.Scope.Stack
import Unassigned.Signature.Table

/-!
# `Scan.State` — what a scan knows at a place

A scan goes through the tokens of a file once. It carries the scopes around the place it has reached, the
defects found so far, and the tokens that a construct has already dealt with. A defect below the report
level is not kept; nothing else depends on the level.

The basic moves on this state are `check`, a read of a variable, and `assign` and `declare`, which make a
name known.
-/

namespace Unassigned

/-- What a scan is given: the file, the signatures for its calls, and what is known beforehand. -/
structure ScanContext where
  file : SourceFile
  signatures : SignatureTable
  /-- Defects that are less serious are not kept. -/
  level : Severity := .notice
  /-- Reads in the file scope are checked too. -/
  checkFileScope : Bool := true
  /-- Names that are always set in the file scope. -/
  knownGlobals : List String := []

/-- What a scan has found up to a place. -/
structure ScanState where
  scopes : ScopeStack := {}
  /-- The defects so far, the latest first. -/
  defects : List Defect := []
  /-- The tokens whose occurrence a construct has dealt with. -/
  consumed : List Nat := []
  /-- Variables that the last doc comment declares, with their types. -/
  annotations : List (String × Option String) := []
  /-- Where the statement ends that the annotations are about. -/
  annotationsEnd : Option Nat := none
  deriving DecidableEq, Repr

/-- What comes out of a scan or of a part of it that may stop it. -/
abbrev ScanResult := Except ScanError

/-- Variables that exist in every scope. -/
def superglobals : List String := [
  "$GLOBALS", "$_REQUEST", "$_GET", "$_POST", "$_FILES", "$_ENV", "$_SERVER", "$_COOKIE",
  "$_SESSION", "$HTTP_RAW_POST_DATA", "$http_response_header", "$php_errormsg", "$this"]

/-- Variables that a script run from the command line has in its file scope. -/
def defaultGlobals : List String := ["$argv", "$argc"]

namespace ScanState

variable (st : ScanState)

/-- Notes that the token at a place has been dealt with. -/
def consume (i : Nat) : ScanState :=
  { st with consumed := i :: st.consumed }

/-- Applies a change to the scopes. -/
def onScopes (change : ScopeStack → ScopeStack) : ScanState :=
  { st with scopes := change st.scopes }

/-- Makes the variable of a token known in the scope at this depth, as assigned and with a further
    change. -/
def assignWith (depth : Nat) (token : Token) (change : Variable → Variable) : ScanState :=
  st.onScopes fun scopes =>
    scopes.touch depth token fun v => change { v with status := .assigned }

/-- Makes the variable of a token known in the scope at this depth, as assigned. -/
def assign (depth : Nat) (token : Token) : ScanState :=
  st.assignWith depth token id

/-- Makes the variable of a token known in the scope at this depth; a variable that is known stays as it
    is. -/
def declare (depth : Nat) (token : Token) : ScanState :=
  if st.scopes.declares depth token.text then st else st.assign depth token

/-- The annotated classes of the variables in the current scope. -/
def currentTypes : List (String × String) :=
  ((st.scopes.frame? 0).map Frame.types).getD []

end ScanState

namespace ScanContext

variable (ctx : ScanContext)

/-- Adds a defect, unless it is below the report level. -/
def report (token : Token) (severity : Severity) (finding : Finding) (st : ScanState) : ScanState :=
  if severity.atLeast ctx.level then
    { st with defects := ⟨token, severity, finding⟩ :: st.defects }
  else st

/-- A name that is set beforehand in the scope at this depth. -/
def isPredefined (st : ScanState) (depth : Nat) (name : String) : Bool :=
  superglobals.contains name
    || (st.scopes.depth - depth == 1 && ctx.knownGlobals.contains name)

/-- A name that can be read in the scope at this depth. -/
def isKnown (st : ScanState) (depth : Nat) (name : String) : Bool :=
  ctx.isPredefined st depth name || st.scopes.declares depth name

/-- Reads a variable in the scope at this depth. A known one is marked as used. An unknown one is
    reported: as undefined in a strict scope, as possibly undefined in a relaxed scope or if the read is
    `lenient`. It is then made known if `create`, so that it is reported once. -/
def check (token : Token) (lenient : Bool) (depth : Nat) (create : Bool) (st : ScanState) :
    ScanState :=
  if ctx.isPredefined st depth token.text then st
  else if st.scopes.declares depth token.text then
    st.onScopes fun scopes =>
      scopes.modifyVar depth token.text fun v => { v with status := .used }
  else
    let st :=
      if st.scopes.modeAt depth == .relaxed || lenient then
        ctx.report token .warning .possiblyUndefined st
      else ctx.report token .error .undefined st
    if create then st.assign depth token else st

/-- Makes the variable of a token known that is created by what is done to it: if it is not known, that is
    a finding. -/
def autovivify (token : Token) (finding : Finding) (st : ScanState) : ScanState :=
  let st := if ctx.isKnown st 0 token.text then st else ctx.report token .warning finding st
  st.assign 0 token

/-- Reads in the current scope are not checked. -/
def skipsReads (st : ScanState) : Bool :=
  !ctx.checkFileScope && st.scopes.depth == 1

/-- A plain read of a variable, unless a construct has dealt with the token. -/
def read (token : Token) (st : ScanState) : ScanState :=
  if st.consumed.contains token.index || ctx.skipsReads st then st
  else ctx.check token false 0 true st

end ScanContext

/-! ## Movements that several constructs share -/

namespace TokenStream

variable (f : TokenStream)

/-- The token after a variable and the index groups `[...]` that follow it, and whether there are any. -/
def afterIndexes (i : Nat) : Option Nat × Bool :=
  match _h : f.next? i with
  | none => (none, false)
  | some j =>
    if f.isChar j '[' then ((afterIndexes (f.skipGroup j)).1, true) else (some j, false)
termination_by f.size - i
decreasing_by
  have hnext := f.next?_bounds _h
  have hskip := f.le_skipGroup j
  omega

/-- The first token at or after a place that is not of these kinds. -/
def skipKinds (isSkipped : Kind → Bool) (i : Nat) : Option Nat :=
  if isSkipped (f.kind i) then
    f.search? (fun _ => false) (fun j => !isSkipped (f.kind j)) i
  else some i

theorem le_of_skipKinds {p : Kind → Bool} {i j : Nat} (h : f.skipKinds p i = some j) : i ≤ j := by
  unfold skipKinds at h
  split at h
  · have := f.search?_bounds h; omega
  · simp at h; omega

/-- The token before a place satisfies a property. -/
def prevAny (i : Nat) (p : Kind → Bool) : Bool :=
  (f.prev? i).any fun j => p (f.kind j)

/-- The bracket at a place follows an operand, so it holds an index or arguments. -/
def followsOperand (i : Nat) : Bool :=
  f.prevAny i fun kind =>
    [.var, .name, .stringLiteral, .char ')', .char ']', .char '\x7d'].contains kind

end TokenStream

end Unassigned
