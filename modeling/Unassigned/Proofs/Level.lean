import Unassigned.Lint.Linter
import Unassigned.Proofs.Moments

/-!
# `Proofs.Level` — the report level only chooses among the findings

A scan drops a defect below its level at the moment it is found. So the scan at a level and the scan at the
lowest level are two different runs, and this file relates them moment by moment: they perform the same
commands, and their states differ in the defects only, of which the one at the higher level has those that
are serious enough (`stateAt_level`).

The proof is one equation for each command (`perform_level`): performing it and leaving out the defects
below a level can be done in either order. A plan depends on the state through the noted types alone, so the
equation goes over to steps and to whole scans.
-/

namespace Unassigned

/-- The state without the defects below a level. -/
def ScanState.atLevel (level : Severity) (st : ScanState) : ScanState :=
  { st with defects := Defect.atLevel level st.defects }

namespace ScanContext

variable (ctx : ScanContext) (level : Severity)

/-- The same scan with another report level. -/
def withLevel : ScanContext :=
  { ctx with level }

/-! ## Commands -/

/-- Leaving out defects commutes with a report: at the lowest level every defect is kept first. -/
theorem report_level (token : Token) (severity : Severity) (finding : Finding) (st : ScanState) :
    (ctx.withLevel level).report token severity finding (st.atLevel level)
      = ((ctx.withLevel .notice).report token severity finding st).atLevel level := by
  have hkept : severity.atLeast .notice = true := by cases severity <;> rfl
  by_cases h : severity.atLeast level
  · simp [report, withLevel, ScanState.atLevel, Defect.atLevel, h, hkept]
  · simp [report, withLevel, ScanState.atLevel, Defect.atLevel, h, hkept]

theorem onScopes_level (change : ScopeStack → ScopeStack) (st : ScanState) :
    (st.atLevel level).onScopes change = (st.onScopes change).atLevel level := rfl

theorem consume_level (i : Nat) (st : ScanState) :
    (st.atLevel level).consume i = (st.consume i).atLevel level := rfl

theorem assign_level (depth : Nat) (token : Token) (st : ScanState) :
    (st.atLevel level).assign depth token = (st.assign depth token).atLevel level := rfl

theorem declare_level (depth : Nat) (token : Token) (st : ScanState) :
    (st.atLevel level).declare depth token = (st.declare depth token).atLevel level := by
  unfold ScanState.declare
  rw [apply_ite (ScanState.atLevel level)]
  rfl

theorem isKnown_level (st : ScanState) (depth : Nat) (name : String) :
    (ctx.withLevel level).isKnown (st.atLevel level) depth name
      = (ctx.withLevel .notice).isKnown st depth name := rfl

theorem check_level (token : Token) (lenient : Bool) (depth : Nat) (create : Bool)
    (st : ScanState) :
    (ctx.withLevel level).check token lenient depth create (st.atLevel level)
      = ((ctx.withLevel .notice).check token lenient depth create st).atLevel level := by
  have hmode : (st.atLevel level).scopes = st.scopes := rfl
  have hpre : (ctx.withLevel level).isPredefined (st.atLevel level) depth token.text
      = (ctx.withLevel .notice).isPredefined st depth token.text := rfl
  unfold check
  rw [hpre, hmode]
  split
  · rfl
  · split
    · rfl
    · split <;> cases create <;> simp [report_level, assign_level]

theorem autovivify_level (token : Token) (finding : Finding) (st : ScanState) :
    (ctx.withLevel level).autovivify token finding (st.atLevel level)
      = ((ctx.withLevel .notice).autovivify token finding st).atLevel level := by
  unfold autovivify
  rw [isKnown_level]
  split
  · exact assign_level level 0 token st
  · rw [report_level, assign_level]

theorem standAlone_level (token : Token) (st : ScanState) :
    (ctx.withLevel level).standAlone token (st.atLevel level)
      = ((ctx.withLevel .notice).standAlone token st).atLevel level := by
  unfold standAlone
  rw [report_level, assign_level]

theorem read_level (token : Token) (st : ScanState) :
    (ctx.withLevel level).read token (st.atLevel level)
      = ((ctx.withLevel .notice).read token st).atLevel level := by
  unfold read
  have hskip : (ctx.withLevel level).skipsReads (st.atLevel level)
      = (ctx.withLevel .notice).skipsReads st := rfl
  have hconsumed : (st.atLevel level).consumed = st.consumed := rfl
  rw [hskip, hconsumed]
  split
  · rfl
  · exact check_level ctx level token false 0 true st

theorem applySwitch_level (i : Nat) (st : ScanState) :
    (ctx.withLevel level).applySwitch i (st.atLevel level)
      = ((ctx.withLevel .notice).applySwitch i st).atLevel level := by
  have hscopes : (st.atLevel level).scopes = st.scopes := rfl
  unfold applySwitch
  rw [hscopes]
  cases h : (st.scopes.applyPending i).2 with
  | none => simp only [h]; rfl
  | some t =>
      simp only [h]
      exact report_level ctx level t .notice .relaxedMode
        { st with scopes := (st.scopes.applyPending i).1 }

theorem applyDocComment_level (token : Token) (st : ScanState) :
    applyDocComment token (st.atLevel level) = (applyDocComment token st).atLevel level := by
  have hnotes : (st.atLevel level).annotations = st.annotations := rfl
  unfold applyDocComment
  rw [hnotes]
  cases st.annotations.lookup token.text with
  | none => rfl
  | some type =>
      cases type with
      | none => simp only [declare_level]; rw [apply_ite (ScanState.atLevel level)]; rfl
      | some type =>
          simp only [onScopes_level, declare_level]
          rw [apply_ite (ScanState.atLevel level)]
          rfl

/-- **One command.** Performing it at a level is performing it at the lowest level and then leaving out
    the defects below the level. -/
theorem perform_level (c : Command) (st : ScanState) :
    (ctx.withLevel level).perform c (st.atLevel level)
      = ((ctx.withLevel .notice).perform c st).atLevel level := by
  cases c with
  | applySwitch i => exact applySwitch_level ctx level i st
  | dropFinished i => rfl
  | forgetAnnotations i => simp only [perform]; rw [apply_ite (ScanState.atLevel level)]; rfl
  | annotate declared stop => rfl
  | applyDocComment token => exact applyDocComment_level level token st
  | read token => exact read_level ctx level token st
  | readLeniently token =>
      simp only [perform, check_level]
      rw [apply_ite (ScanState.atLevel level)]
      rfl
  | check token => exact check_level ctx level token false 0 true st
  | assign token role => rfl
  | autovivify token finding => exact autovivify_level ctx level token finding st
  | coalesce token =>
      simp only [perform, isKnown_level, check_level, assign_level]
      rw [apply_ite (ScanState.atLevel level)]
  | update token finding isAlone =>
      simp only [perform, isKnown_level, standAlone_level, read_level, autovivify_level]
      rw [apply_ite (ScanState.atLevel level), apply_ite (ScanState.atLevel level)]
  | standAlone token => exact standAlone_level ctx level token st
  | declare token => exact declare_level level 0 token st
  | test token =>
      simp only [perform, declare_level, consume_level]
      rw [apply_ite (ScanState.atLevel level)]
      rfl
  | consume i => rfl
  | schedule trigger effectiveAt => rfl
  | rejectReference token => exact report_level ctx level token .error .nonVariableByReference st
  | openFunction => rfl
  | openArrow endIndex => rfl
  | bindParameter token isRef => rfl
  | checkOuter token => exact check_level ctx level token false 1 false st
  | declareOuter token => exact declare_level level 1 token st
  | endAt endIndex => rfl
  | discard => rfl

theorem execute_level (cs : List Command) (st : ScanState) :
    (ctx.withLevel level).execute cs (st.atLevel level)
      = ((ctx.withLevel .notice).execute cs st).atLevel level := by
  induction cs generalizing st with
  | nil => rfl
  | cons c cs ih => rw [execute_cons, execute_cons, perform_level, ih]

/-! ## Steps and scans -/

/-- A step does not depend on the level. -/
theorem plan_level (i : Nat) (st : ScanState) :
    (ctx.withLevel level).plan i (st.atLevel level) = (ctx.withLevel .notice).plan i st := by
  have htypes : ((ctx.withLevel level).arrive i (st.atLevel level)).currentTypes
      = ((ctx.withLevel .notice).arrive i st).currentTypes := by
    unfold arrive
    rw [execute_level]
    rfl
  unfold plan
  rw [htypes]
  rfl

theorem after_level (i : Nat) (st : ScanState) :
    (ctx.withLevel level).after i (st.atLevel level)
      = ((ctx.withLevel .notice).after i st).atLevel level := by
  unfold after
  rw [plan_level, execute_level]

/-- Both scans perform the same commands. -/
theorem commandsFrom_level (i : Nat) (st : ScanState) :
    (ctx.withLevel level).commandsFrom i (st.atLevel level)
      = (ctx.withLevel .notice).commandsFrom i st := by
  fun_induction commandsFrom (ctx.withLevel .notice) i st with
  | case1 i st hi e he =>
      rw [← plan_level ctx level] at he ⊢
      exact commandsFrom_of_error _ hi he
  | case2 i st hi last hlast ih =>
      rw [← ih, ← after_level]
      rw [← plan_level ctx level] at hlast ⊢
      exact commandsFrom_of_ok _ hi hlast
  | case3 i st hi => exact commandsFrom_of_le (ctx.withLevel level) _ (Nat.le_of_not_lt hi)

/-- **The moments of both scans agree**, up to the defects that the level leaves out. -/
theorem stateAt_level (k : Nat) :
    (ctx.withLevel level).stateAt k = ((ctx.withLevel .notice).stateAt k).atLevel level := by
  unfold stateAt history
  rw [← execute_level]
  exact congrArg (fun cs => (ctx.withLevel level).execute (cs.take k) {})
    (commandsFrom_level ctx level 0 {})

theorem scanFrom_level (i : Nat) (st : ScanState) :
    (ctx.withLevel level).scanFrom i (st.atLevel level)
      = ((ctx.withLevel .notice).scanFrom i st).map (ScanState.atLevel level) := by
  fun_induction scanFrom (ctx.withLevel .notice) i st with
  | case1 i st hi e he =>
      rw [← plan_level ctx level] at he
      exact scanFrom_of_error _ hi he
  | case2 i st hi last hlast ih =>
      rw [← ih, ← after_level]
      rw [← plan_level ctx level] at hlast
      exact scanFrom_of_ok _ hi hlast
  | case3 i st hi => exact scanFrom_of_le (ctx.withLevel level) _ (Nat.le_of_not_lt hi)

theorem foldl_report_level (vs : List Variable) (st : ScanState) :
    vs.foldl (fun st v => (ctx.withLevel level).report v.token .notice .valueNotUsed st)
        (st.atLevel level)
      = (vs.foldl (fun st v => (ctx.withLevel .notice).report v.token .notice .valueNotUsed st)
          st).atLevel level := by
  induction vs generalizing st with
  | nil => rfl
  | cons v vs ih => rw [List.foldl_cons, List.foldl_cons, report_level, ih]

theorem finish_level (st : ScanState) :
    (ctx.withLevel level).finish (st.atLevel level)
      = ((ctx.withLevel .notice).finish st).map (ScanState.atLevel level) := by
  unfold finish
  simp only [onScopes_level, foldl_report_level]
  rw [apply_ite (Except.map (ScanState.atLevel level))]
  rfl

theorem defects_level :
    (ctx.withLevel level).defects
      = (ctx.withLevel .notice).defects.map (Defect.atLevel level) := by
  have hscan := scanFrom_level ctx level 0 {}
  have hstart : ({} : ScanState).atLevel level = {} := rfl
  rw [hstart] at hscan
  unfold defects scan
  rw [hscan]
  cases (ctx.withLevel .notice).scanFrom 0 {} with
  | error e => rfl
  | ok st =>
      have hfinish := finish_level ctx level st
      simp only [Except.map, bind, Except.bind]
      rw [hfinish]
      cases (ctx.withLevel .notice).finish st with
      | error e => rfl
      | ok last =>
          simp only [Except.map, ScanState.atLevel, Defect.atLevel, List.filter_reverse]

end ScanContext

/-- **The report level is a filter.** For every source and all settings of a linter, linting at a level
    gives the defects found at the lowest level that are at least as serious, in the same order, or the same
    error; and the two scans perform the same commands, with the same scopes, waiting switch and dealt-with
    tokens at every moment. -/
theorem Linter.lintSource_level (linter : Linter) (level : Severity) (name source : String) :
    ({ linter with level }.lintSource name source
        = ({ linter with level := .notice }.lintSource name source).map (Defect.atLevel level))
      ∧ ∀ file, SourceFile.ofSource name source = .ok file →
        let filtered := { linter with level }.context file
        let full := { linter with level := .notice }.context file
        filtered.history = full.history
          ∧ ∀ k, (filtered.stateAt k).scopes = (full.stateAt k).scopes
            ∧ (filtered.stateAt k).consumed = (full.stateAt k).consumed := by
  constructor
  · unfold lintSource
    cases SourceFile.ofSource name source with
    | error e => rfl
    | ok file =>
        have h := ScanContext.defects_level (linter.context file) level
        change Except.mapError _ ((linter.context file).withLevel level).defects
          = Except.map _ (Except.mapError _ ((linter.context file).withLevel .notice).defects)
        rw [h]
        cases ((linter.context file).withLevel .notice).defects <;> rfl
  · intro file _
    refine ⟨ScanContext.commandsFrom_level (linter.context file) level 0 {}, fun k => ?_⟩
    have h := ScanContext.stateAt_level (linter.context file) level k
    exact ⟨(congrArg ScanState.scopes h :), (congrArg ScanState.consumed h :)⟩

end Unassigned
