import Unassigned.Scan.Step

/-!
# `Scan.Run` — the scan of a whole file

A scan takes steps from the first token to the last. At the end the variables of the file scope that were
never read are reported. `trace` makes the same steps and records what each of them did.
-/

namespace Unassigned

/-- The variables known in the file scope, the last frame of a stack. -/
def ScopeStack.fileVariables (stack : ScopeStack) : List Variable :=
  variablesOf (stack.frames.drop (stack.depth - 1))

namespace ScanContext

variable (ctx : ScanContext)

/-- Scans from a place to the end of the file. -/
def scanFrom (i : Nat) (st : ScanState) : ScanResult ScanState :=
  if i < ctx.file.size then
    match _h : (ctx.plan i st).result with
    | .error e => .error e
    | .ok last => scanFrom (last + 1) (ctx.after i st)
  else .ok st
termination_by ctx.file.size - i
decreasing_by
  have hle := ctx.le_of_plan _h
  omega

/-- A variable of the file scope that was never read. -/
def isUnused (v : Variable) : Bool :=
  v.status != .used && !superglobals.contains v.name

/-- Ends a scan: all scopes but that of the file must be over, and the variables of the file scope that
    were never read are reported. -/
def finish (st : ScanState) : ScanResult ScanState :=
  let st := st.onScopes fun scopes => scopes.dropFinished ctx.file.size
  if st.scopes.depth = 1 then
    .ok <| (st.scopes.fileVariables.filter isUnused).foldl
      (fun st v => ctx.report v.token .notice .valueNotUsed st) st
  else .error (.analysis (.openScopes st.scopes.depth ctx.file.name))

/-- Scans the file. -/
def scan : ScanResult ScanState := do
  let st ← ctx.scanFrom 0 {}
  ctx.finish st

/-- The defects of the file at the report level, in the order in which they were found. -/
def defects : ScanResult (List Defect) :=
  ctx.scan.map fun st => st.defects.reverse

end ScanContext

/-! ## Recorded scans -/

/-- What a state has in addition to an earlier one. -/
structure ScanChange where
  /-- The defects found since, in order. -/
  defects : List Defect
  /-- The tokens dealt with since, ascending. -/
  consumed : List Nat
  /-- The scopes, if they differ. -/
  scopes : Option ScopeStack

/-- What changed between two states of a scan. -/
def ScanState.changeSince (before after : ScanState) : ScanChange where
  defects := (after.defects.take (after.defects.length - before.defects.length)).reverse
  consumed := ((after.consumed.take (after.consumed.length - before.consumed.length)).filter
    fun i => !before.consumed.contains i).eraseDups.mergeSort
  scopes := if after.scopes = before.scopes then none else some after.scopes

/-- One recorded step: where it was taken, the last token it dealt with, and what it changed. -/
structure ScanStep where
  start : Nat
  last : Nat
  change : ScanChange

namespace ScanContext

variable (ctx : ScanContext)

/-- The steps of a scan from a place on, and how it ended. -/
def stepsFrom (i : Nat) (st : ScanState) : List ScanStep × ScanResult ScanState :=
  if i < ctx.file.size then
    match _h : (ctx.plan i st).result with
    | .error e => ([], .error e)
    | .ok last =>
      let after := ctx.after i st
      let (steps, result) := stepsFrom (last + 1) after
      (⟨i, last, st.changeSince after⟩ :: steps, result)
  else ([], .ok st)
termination_by ctx.file.size - i
decreasing_by
  have hle := ctx.le_of_plan _h
  omega

/-- A scan with its steps. After the last step, what the end of the scan adds is a change of its own. -/
structure Trace where
  steps : List ScanStep
  outcome : ScanResult (ScanState × ScanChange)

/-- Scans the file and records the steps. -/
def trace : Trace :=
  let (steps, result) := ctx.stepsFrom 0 {}
  { steps, outcome := do
      let st ← result
      let last ← ctx.finish st
      return (last, st.changeSince last) }

end ScanContext

end Unassigned
