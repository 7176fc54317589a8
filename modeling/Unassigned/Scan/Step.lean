import Unassigned.Scan.Function
import Unassigned.Scan.Loop
import Unassigned.Scan.Statement

/-!
# `Scan.Step` — one step of a scan

A step deals with the token at a place and says which token was the last it dealt with. On arrival at a
place a switch that is due is applied, and scopes that have ended are dropped, in this order. Then the
token's kind decides.

A step never goes back (`le_of_plan`), so a scan that goes on after the last token dealt with ends.
-/

namespace Unassigned

/-- What happens on arrival at a place, whatever stands there. -/
def arrival (i : Nat) : List Command :=
  [.applySwitch i, .dropFinished i, .forgetAnnotations i]

/-- Some commands, after which the token at a place was the last dealt with. -/
def Plan.stay (commands : List Command) (i : Nat) : Plan Nat :=
  ⟨commands, .ok i⟩

/-- A keyword. -/
def SourceFile.handleKeyword (f : SourceFile) (word : Keyword) (i : Nat) : Plan Nat :=
  match word with
  | .includeWord | .includeOnceWord | .requireWord | .requireOnceWord => .stay (f.handleInclude i) i
  | .evalWord => .stay (f.handleEval i) i
  | .forWord | .foreachWord | .whileWord | .doWord => do f.handleLoop i; return i
  | .functionWord => f.handleFunction i
  | .fnWord => f.handleArrowFunction i
  | .catchWord => f.handleCatch i
  | .listWord => do f.handleList i; return i
  | .globalWord => f.handleGlobal i
  | .staticWord => do f.handleStatic i; return i
  | .issetWord | .emptyWord => .stay (f.handleIsset i) i
  | _ => .stay [] i

namespace Plan

theorem le_of_stay {commands : List Command} {i j : Nat} (h : (stay commands i).result = .ok j) :
    i ≤ j := by
  simp [stay] at h
  omega

theorem le_of_bind_return {plan : Plan Unit} {i j : Nat}
    (h : (do plan; return i : Plan Nat).result = .ok j) : i ≤ j := by
  obtain ⟨_, _, h⟩ := result_bind_eq_ok.1 h
  simp at h
  omega

end Plan

theorem SourceFile.le_of_handleKeyword (f : SourceFile) {word : Keyword} {i stop : Nat}
    (h : (f.handleKeyword word i).result = .ok stop) : i ≤ stop := by
  unfold handleKeyword at h
  split at h
  iterate 5 exact Plan.le_of_stay h
  iterate 4 exact Plan.le_of_bind_return h
  · exact f.le_of_handleFunction h
  · exact f.le_of_handleArrowFunction h
  · exact f.le_of_handleCatch h
  · exact Plan.le_of_bind_return h
  · exact f.le_of_handleGlobal h
  · exact Plan.le_of_bind_return h
  iterate 3 exact Plan.le_of_stay h

namespace ScanContext

variable (ctx : ScanContext)

/-- What is to be done about the token at a place; `types` gives the annotated classes of the variables in
    the current scope. Leads to the last token dealt with. -/
def dispatch (types : List (String × String)) (i : Nat) : Plan Nat :=
  let f := ctx.file
  match f.kind i with
  | .docComment => .stay (f.handleDocComment i) i
  | .var => .stay (f.handleVariable i) i
  | .name => do ctx.handleName types i; return i
  | .char c =>
    if c = '$' then .stay (f.handleDollar i) i
    else if c = '[' then .stay (f.handleBracket i) i
    else .stay [] i
  | .stringVarName => .stay [f.handleStringVarName i] i
  | .keyword word => f.handleKeyword word i
  | _ => .stay [] i

/-- The state on arrival at a place. -/
def arrive (i : Nat) (st : ScanState) : ScanState :=
  ctx.execute (arrival i) st

/-- One step of the scan at a place. -/
def plan (i : Nat) (st : ScanState) : Plan Nat := do
  .emitAll (arrival i)
  ctx.dispatch (ctx.arrive i st).currentTypes i

theorem le_of_dispatch {types : List (String × String)} {i stop : Nat}
    (h : (ctx.dispatch types i).result = .ok stop) : i ≤ stop := by
  unfold dispatch at h
  cases hk : ctx.file.kind i with
  | name =>
    simp only [hk] at h
    exact Plan.le_of_bind_return h
  | char c =>
    simp only [hk] at h
    split at h
    · exact Plan.le_of_stay h
    · split at h <;> exact Plan.le_of_stay h
  | keyword word =>
    simp only [hk] at h
    exact ctx.file.le_of_handleKeyword h
  | _ =>
    simp only [hk] at h
    exact Plan.le_of_stay h

/-- A step never goes back. -/
theorem le_of_plan {i stop : Nat} {st : ScanState} (h : (ctx.plan i st).result = .ok stop) :
    i ≤ stop := by
  obtain ⟨_, _, h⟩ := Plan.result_bind_eq_ok.1 h
  exact ctx.le_of_dispatch h

/-- The state after the step at a place. -/
def after (i : Nat) (st : ScanState) : ScanState :=
  ctx.execute (ctx.plan i st).commands st

end ScanContext

end Unassigned
