import Unassigned.Lint.Linter
import Unassigned.Proofs.Checked.Scan
import Unassigned.Proofs.Heights

/-!
# `Proofs.Checked` — a whole run with look-ups that can fail

The file is read and scanned with checked look-ups: patterns and operators as in `Proofs.Checked.Lexer`, brackets
and tokens as in `Proofs.Checked.Stream`, the scopes that a command refers to, and steps that have to go forward.

**No look-up of a run fails** (`Checked.lint_eq`), so the checked run is the run.
-/

namespace Unassigned

namespace Checked

variable (ctx : ScanContext)
variable {st : ScanState}

/-! ## The scopes -/

/-- Performs a command; the scopes it refers to have to be there. -/
def perform (command : Command) (st : ScanState) : Except Fault ScanState :=
  if command.reach < st.scopes.depth then return ctx.perform command st
  else .error (.noScope command.reach)

/-- Performs commands one after the other. -/
def execute : List Command → ScanState → Except Fault ScanState
  | [], st => return st
  | command :: rest, st => do
    let st ← perform ctx command st
    execute rest st

theorem execute_eq {commands : List Command}
    (h : ∀ k c, commands[k]? = some c → c.reach < (ctx.execute (commands.take k) st).scopes.depth) :
    execute ctx commands st = .ok (ctx.execute commands st) := by
  induction commands generalizing st with
  | nil => rfl
  | cons command rest ih =>
      have hfirst : command.reach < st.scopes.depth := h 0 command rfl
      have hrest : ∀ k c, rest[k]? = some c
          → c.reach < (ctx.execute (rest.take k) (ctx.perform command st)).scopes.depth := by
        intro k c hc
        exact h (k + 1) c hc
      rw [execute, perform, if_pos hfirst]
      exact ih hrest

theorem execute_arrival_eq (i : Nat) (hst : 0 < st.scopes.depth) :
    execute ctx (arrival i) st = .ok (ctx.arrive i st) := by
  refine execute_eq ctx fun k c hc => ?_
  -- on arrival only the current scope is referred to
  have hreach : c.reach = 0 := by
    rcases (by simpa [arrival] using List.mem_of_getElem? hc) with rfl | rfl | rfl <;> rfl
  rw [hreach]
  exact ctx.depth_arriving i k hst

/-! ## The scan -/

/-- As `ScanContext.scanFrom`; every step has to go forward. -/
def scanFrom (i : Nat) (st : ScanState) : Except Fault (ScanResult ScanState) :=
  if i < ctx.file.size then do
    let arrived ← execute ctx (arrival i) st
    let plan ← dispatch ctx arrived.currentTypes i
    let after ← execute ctx plan.commands arrived
    match plan.result with
    | .error e => return .error e
    | .ok last => if _h : i ≤ last then scanFrom (last + 1) after else .error (.goesBack i last)
  else return .ok st
termination_by ctx.file.size - i

variable {ctx}

/-- One step: all its look-ups succeed, and it leads on to the next one. -/
theorem scanFrom_step (hctx : ctx.file.WellNested) {i : Nat} (hst : 0 < st.scopes.depth) (hi : i < ctx.file.size) :
    scanFrom ctx i st = match (ctx.plan i st).result with
      | .error e => .ok (.error e)
      | .ok last => scanFrom ctx (last + 1) (ctx.after i st) := by
  have hshape := ctx.dispatch_shape (ctx.arrive i st).currentTypes i
  have hcommands := execute_eq ctx fun k c hc => (ctx.lt_depth_of_shape hshape (ctx.depth_arrive i hst) hc).1
  rw [scanFrom, if_pos hi, execute_arrival_eq ctx i hst, ok_bind, dispatch_eq hctx, ok_bind, hcommands, ok_bind,
    ← ctx.result_plan, ← ctx.after_eq]
  cases hresult : (ctx.plan i st).result with
  | error e => rfl
  | ok last => exact dif_pos (ctx.le_of_plan hresult)

theorem scanFrom_eq (hctx : ctx.file.WellNested) (i : Nat) (hst : 0 < st.scopes.depth) :
    scanFrom ctx i st = .ok (ctx.scanFrom i st) := by
  fun_induction ScanContext.scanFrom ctx i st with
  | case1 i st hi e herror => rw [scanFrom_step hctx hst hi, herror]
  | case2 i st hi last hlast ih =>
      rw [scanFrom_step hctx hst hi, hlast]
      exact ih (ctx.depth_after i hst)
  | case3 i st hi =>
      rw [scanFrom, if_neg hi]
      rfl

/-! ## The run -/

/-- As `Linter.lintSource`. -/
def lint (linter : Linter) (name source : String) : Except Fault (Except LintError (List Defect)) := do
  match ← ofSource name source with
  | .error e => return .error (.parse e)
  | .ok file =>
    let declared ← signatures file
    let ctx := { linter.context file with signatures := { declared, configured := linter.configured } }
    match ← scanFrom ctx 0 {} with
    | .error e => return .error (.scan e)
    | .ok st => return ((ctx.finish st).map fun st => st.defects.reverse).mapError .scan

/-- **No look-up of a run fails.** -/
theorem lint_eq (linter : Linter) (name source : String) :
    lint linter name source = .ok (linter.lintSource name source) := by
  rw [lint, ofSource_eq, ok_bind, Linter.lintSource]
  cases hfile : SourceFile.ofSource name source with
  | error e => rfl
  | ok file =>
      have hnested : (linter.context file).file.WellNested := SourceFile.wellNested_of_ofSource hfile
      have hscan := scanFrom_eq hnested 0 (show 0 < ({} : ScanState).scopes.depth from Nat.zero_lt_one)
      dsimp only
      rw [signatures_eq hfile, ok_bind]
      -- with the signatures collected, the context is that of the linter
      show (scanFrom (linter.context file) 0 {} >>= _) = _
      rw [hscan, ok_bind, Linter.defects, ScanContext.defects, ScanContext.scan]
      cases (linter.context file).scanFrom 0 {} with
      | error e => rfl
      | ok st => rfl

end Checked

end Unassigned
