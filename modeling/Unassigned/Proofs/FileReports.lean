import Unassigned.Lint.Report
import Unassigned.Proofs.Outcome

/-!
# `Proofs.FileReports` — one report for each file of a run

A file that cannot be read, parsed or scanned gets a report that says why, and the other files get the reports
that they would get alone. There are two exceptions. A scan that runs out of positions and a source that is nested too
deep are no errors of their file: they **end the run**, and then no file gets a report. Which files do that is said by
`Linter.EndsRun`, in the words of `Proofs.Outcome`: the scan reaches a call with a configured position before its first
argument, or an interpolated expression is inside `maxNesting` others.
-/

namespace Unassigned

namespace Linter

variable {linter : Linter} {input : InputFile}
variable {report : FileReport}

/-! ## One file -/

/-- What the report on a file says: why the file could not be checked, or which defects it has. -/
inductive Reports (linter : Linter) (input : InputFile) : FileReport → Prop where
  | unreadable {reason : String} : input.text = .error reason →
      Reports linter input ⟨input.name, .error (.unreadable reason)⟩
  | unparsed {source : String} {e : ParseError} : input.text = .ok source →
      SourceFile.ofSource input.name source = .error e → e ≠ .tooDeep →
      Reports linter input ⟨input.name, .error (.parse e)⟩
  | unscanned {source : String} {file : SourceFile} {e : AnalysisError} : input.text = .ok source →
      SourceFile.ofSource input.name source = .ok file → linter.defects file = .error (.analysis e) →
      Reports linter input ⟨input.name, .error (.scan (.analysis e))⟩
  | checked {source : String} {file : SourceFile} {defects : List Defect} : input.text = .ok source →
      SourceFile.ofSource input.name source = .ok file → linter.defects file = .ok defects →
      Reports linter input ⟨input.name, .ok defects⟩

/-- The error with which a file ends the run: its source is nested too deep, or its scan runs out of positions. -/
inductive Fails (linter : Linter) (input : InputFile) : LintError → Prop where
  | tooDeep {source : String} : input.text = .ok source → SourceFile.ofSource input.name source = .error .tooDeep →
      Fails linter input (.parse .tooDeep)
  | position {source : String} {file : SourceFile} : input.text = .ok source →
      SourceFile.ofSource input.name source = .ok file → linter.defects file = .error .positionOutOfRange →
      Fails linter input (.scan .positionOutOfRange)

/-- A file gets its report, or ends the run. -/
theorem report_cases (linter : Linter) (input : InputFile) :
    (∃ report, linter.report input = .ok report ∧ linter.Reports input report)
      ∨ ∃ e, linter.report input = .error e ∧ linter.Fails input e := by
  unfold report lintFile
  cases htext : input.text with
  | error reason => exact .inl ⟨_, rfl, .unreadable htext⟩
  | ok source =>
      dsimp only
      unfold lintSource
      cases hfile : SourceFile.ofSource input.name source with
      | error e =>
          by_cases hdeep : e = .tooDeep
          · subst hdeep
            exact .inr ⟨_, rfl, .tooDeep htext hfile⟩
          · have hends : LintError.endsRun (.parse e) = false := by
              cases e with
              | tooDeep => exact absurd rfl hdeep
              | _ => rfl
            dsimp only
            rw [hends]
            exact .inl ⟨_, rfl, .unparsed htext hfile hdeep⟩
      | ok file =>
          dsimp only
          cases hdefects : linter.defects file with
          | ok defects => exact .inl ⟨_, rfl, .checked htext hfile hdefects⟩
          | error e =>
              cases e with
              | analysis e => exact .inl ⟨_, rfl, .unscanned htext hfile hdefects⟩
              | positionOutOfRange => exact .inr ⟨_, rfl, .position htext hfile hdefects⟩

theorem reports_of_report (h : linter.report input = .ok report) : linter.Reports input report := by
  rcases linter.report_cases input with ⟨report', h', hreports⟩ | ⟨e, h', _⟩
  · obtain rfl : report' = report := Except.ok.inj (h'.symm.trans h)
    exact hreports
  · cases h'.symm.trans h

theorem fails_of_report {e : LintError} (h : linter.report input = .error e) : linter.Fails input e := by
  rcases linter.report_cases input with ⟨report, h', _⟩ | ⟨e', h', hfails⟩
  · cases h'.symm.trans h
  · exact Except.error.inj (h'.symm.trans h) ▸ hfails

/-- A file that gets a report does not end the run. -/
theorem Reports.not_fails {e : LintError} (h : linter.Reports input report) : ¬ linter.Fails input e := by
  intro hfails
  cases h with
  | unreadable h =>
      cases hfails with
      | tooDeep htext | position htext => cases h.symm.trans htext
  | unparsed h he hdeep =>
      cases hfails with
      | tooDeep htext hsource =>
          obtain rfl := Except.ok.inj (h.symm.trans htext)
          exact hdeep (Except.error.inj (he.symm.trans hsource))
      | position htext hfile =>
          obtain rfl := Except.ok.inj (h.symm.trans htext)
          cases he.symm.trans hfile
  | unscanned h hf he | checked h hf he =>
      cases hfails with
      | tooDeep htext hsource =>
          obtain rfl := Except.ok.inj (h.symm.trans htext)
          cases hf.symm.trans hsource
      | position htext hfile hdefects =>
          obtain rfl := Except.ok.inj (h.symm.trans htext)
          obtain rfl := Except.ok.inj (hf.symm.trans hfile)
          cases he.symm.trans hdefects

theorem Reports.defects_eq_nil (h : linter.Reports input report) (herror : report.error?.isSome) :
    report.defects = [] := by
  cases h with
  | unreadable | unparsed | unscanned => rfl
  | checked => cases herror

/-- The scan of the file reaches a call whose signature has a negative position beyond the number of positional
    arguments. -/
def LacksPosition (linter : Linter) (file : SourceFile) : Prop :=
  ∃ paren signature, (linter.context file).ReachesCall paren signature
    ∧ ∃ p ∈ signature.refs, p < 0 ∧ ((file.positionalArguments paren).length : Int) < -p

/-- The file ends the run: it can be read, and its source is nested too deep or has such a call. -/
def EndsRun (linter : Linter) (input : InputFile) : Prop :=
  ∃ source, input.text = .ok source ∧ (NestsTooDeep source
    ∨ ∃ file, SourceFile.ofSource input.name source = .ok file ∧ linter.LacksPosition file)

/-- The defects of a file fail as its scan does, and the scan fails at such a call. -/
theorem defects_position_iff {settings : LintSettings} {only : List String}
    (hlinter : ofSettings settings only = .ok linter) {file : SourceFile} :
    linter.defects file = .error .positionOutOfRange ↔ linter.LacksPosition file := by
  refine Iff.trans ?_ (ScanContext.scan_error_iff fun _ _ hfind => find?_ascending hlinter hfind)
  unfold defects ScanContext.defects
  cases (linter.context file).scan with
  | error e => simp [Except.map]
  | ok st => simp [Except.map]

theorem endsRun_iff {settings : LintSettings} {only : List String} (hlinter : ofSettings settings only = .ok linter) :
    linter.EndsRun input ↔ ∃ e, linter.Fails input e := by
  constructor
  · rintro ⟨source, htext, hdeep | ⟨file, hfile, hlacks⟩⟩
    · exact ⟨_, .tooDeep htext ((SourceFile.ofSource_tooDeep_iff _ _).mpr hdeep)⟩
    · exact ⟨_, .position htext hfile ((defects_position_iff hlinter).mpr hlacks)⟩
  · rintro ⟨e, hfails⟩
    cases hfails with
    | tooDeep htext hsource => exact ⟨_, htext, .inl ((SourceFile.ofSource_tooDeep_iff _ _).mp hsource)⟩
    | position htext hfile hdefects =>
        exact ⟨_, htext, .inr ⟨_, hfile, (defects_position_iff hlinter).mp hdefects⟩⟩

/-! ## All files -/

/-- Only a configured signature with a negative position makes a scan run out of positions. -/
theorem LacksPosition.configured {file : SourceFile} (h : linter.LacksPosition file) :
    ∃ key signature, linter.configured.lookup key = some signature ∧ ∃ p ∈ signature.refs, p < 0 := by
  obtain ⟨_, signature, ⟨_, _, _, _, hcall⟩, p, hp, hneg, _⟩ := h
  obtain ⟨key, hkey⟩ := hcall.find?
  exact ⟨key, signature, configured_of_negative hkey hp hneg, p, hp, hneg⟩

/-- **How a run over several files ends.** No look-up fails in any of them. There are reports exactly if no file
    ends the run: one for each file, in order, and each the report that the file gets alone. A report with an error
    has no defects. A run without reports ends because a source is nested too deep, or for want of a position, and that
    takes a negative position in the configuration. -/
theorem lintFiles_outcome {settings : LintSettings} {only : List String} {linter : Linter}
    (hlinter : ofSettings settings only = .ok linter) (files : List InputFile) :
    (∀ input ∈ files, ∀ source, input.text = .ok source →
      Checked.lint linter input.name source = .ok (linter.lintSource input.name source))
    ∧ ((∃ reports, linter.lintFiles files = .ok reports) ↔ ∀ input ∈ files, ¬ linter.EndsRun input)
    ∧ (∀ reports, linter.lintFiles files = .ok reports →
        List.Forall₂ (fun input report => linter.Reports input report
          ∧ (report.error?.isSome → report.defects = [])
          ∧ linter.lintFiles [input] = .ok [report]) files reports)
    ∧ (∀ e, linter.lintFiles files = .error e →
        (e = .parse .tooDeep ∧ ∃ input ∈ files, ∃ source, input.text = .ok source ∧ NestsTooDeep source)
        ∨ (e = .scan .positionOutOfRange
          ∧ ∃ key signature, linter.configured.lookup key = some signature ∧ ∃ p ∈ signature.refs, p < 0)) := by
  refine ⟨fun input _ source _ => Checked.lint_eq linter input.name source, ?_, ?_, ?_⟩
  · constructor
    · rintro ⟨reports, h⟩ input hinput hends
      obtain ⟨report, _, hreport⟩ := exists_right_of_forall₂ (mapM_eq_ok.mp h) hinput
      obtain ⟨e, hfails⟩ := (endsRun_iff hlinter).mp hends
      exact (reports_of_report hreport).not_fails hfails
    · intro hnone
      cases hrun : linter.lintFiles files with
      | ok reports => exact ⟨reports, rfl⟩
      | error e =>
          obtain ⟨input, hinput, h⟩ := exists_error_of_mapM hrun
          exact absurd ((endsRun_iff hlinter).mpr ⟨e, fails_of_report h⟩) (hnone input hinput)
  · intro reports h
    refine (mapM_eq_ok.mp h).imp fun input report hreport => ?_
    have hreports := reports_of_report hreport
    exact ⟨hreports, hreports.defects_eq_nil, mapM_eq_ok.mpr (.cons hreport .nil)⟩
  · intro e h
    obtain ⟨input, hinput, h⟩ := exists_error_of_mapM h
    cases fails_of_report h with
    | tooDeep htext hsource =>
        exact .inl ⟨rfl, input, hinput, _, htext, (SourceFile.ofSource_tooDeep_iff _ _).mp hsource⟩
    | position _ _ hdefects => exact .inr ⟨rfl, ((defects_position_iff hlinter).mp hdefects).configured⟩

/-- Files of which only the second can be checked: the others cannot be read, parsed and scanned. -/
def brokenFiles : List InputFile := [
  ⟨"a.php", .error "Permission denied"⟩,
  ⟨"b.php", .ok "<?php echo $x;"⟩,
  ⟨"c.php", .ok "<?php f(;"⟩,
  ⟨"d.php", .ok "<?php catch;"⟩]

/-- Settings by which the last argument of `f` is passed by reference. -/
def lastArgument : LintSettings :=
  { initByReference := ["f, -1"] }

theorem brokenFiles_run : (ofSettings lastArgument []).toOption.any fun linter =>
    linter.lintFiles brokenFiles matches
      .ok [⟨_, .error _⟩, ⟨_, .ok (_ :: _)⟩, ⟨_, .error _⟩, ⟨_, .error _⟩] := by
  decide +kernel

/-- Each of the four files gets its report. -/
theorem brokenFiles_outcome : ∃ linter reports, ofSettings lastArgument [] = .ok linter
    ∧ linter.lintFiles brokenFiles = .ok reports
    ∧ (∀ input ∈ brokenFiles, ¬ linter.EndsRun input)
    ∧ List.Forall₂ (fun input report => linter.Reports input report
        ∧ (report.error?.isSome → report.defects = [])
        ∧ linter.lintFiles [input] = .ok [report]) brokenFiles reports := by
  obtain ⟨linter, hlinter, hrun⟩ := exists_ok_of_any brokenFiles_run
  have houtcome := lintFiles_outcome hlinter brokenFiles
  split at hrun
  · rename_i hreports
    exact ⟨linter, _, hlinter, hreports, houtcome.2.1.mp ⟨_, hreports⟩, houtcome.2.2.1 _ hreports⟩
  · cases hrun

/-- A call without arguments. -/
def emptyCall : InputFile :=
  ⟨"a.php", .ok "<?php f();"⟩

/-- A file without defects. -/
def cleanFile : InputFile :=
  ⟨"b.php", .ok "<?php echo 1;"⟩

theorem lastArgument_run : (ofSettings lastArgument []).toOption.any fun linter =>
    (linter.lintFiles [emptyCall, cleanFile] matches .error (.scan .positionOutOfRange))
      && (linter.lintFiles [cleanFile] matches .ok [⟨"b.php", .ok []⟩]) := by
  decide +kernel

/-- A call of `f` without arguments has no last argument: the run has no reports, also none on the second file,
    which gets one alone. -/
theorem emptyCall_endsRun : ∃ linter, ofSettings lastArgument [] = .ok linter
    ∧ (∀ reports, linter.lintFiles [emptyCall, cleanFile] ≠ .ok reports)
    ∧ linter.lintFiles [cleanFile] = .ok [⟨"b.php", .ok []⟩] := by
  obtain ⟨linter, hlinter, hrun⟩ := exists_ok_of_any lastArgument_run
  obtain ⟨hboth, hclean⟩ := Bool.and_eq_true_iff.mp hrun
  refine ⟨linter, hlinter, ?_, ?_⟩
  · split at hboth
    · rename_i h
      intro reports hok
      cases h.symm.trans hok
    · cases hboth
  · split at hclean
    · assumption
    · cases hclean

end Linter

end Unassigned
