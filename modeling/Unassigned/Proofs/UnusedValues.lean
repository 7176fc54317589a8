import Unassigned.Proofs.FileScopeSwitch
import Unassigned.Proofs.FileVariable
import Unassigned.Proofs.RelaxedMode

/-!
# `Proofs.UnusedValues` — values of the file scope that are never read

At its end a scan reports the variables of the file scope whose value was not read. Whether a variable is among them
is decided by a status that commands overwrite, so it depends on the whole history of the name: the variable is
reported exactly if some command **assigns** it and none **uses** it afterwards (`fileStatus_eq_assigned_iff`).

A read does not always count as a use. One that a construct has dealt with, or that happens while the file scope is
not checked, or that is about a name set beforehand, leaves the status as it is, and the value that was read is then
reported as one that was not (`Linter.unusedValue_reports`).
-/

namespace Unassigned

/-! ## What a command can find -/

/-- The findings that a command can report. -/
def Command.findings : Command → List Finding
  | .applySwitch _ => [.relaxedMode]
  | .read _ | .readLeniently _ | .check _ | .checkOuter _ => [.undefined, .possiblyUndefined]
  | .autovivify _ finding => [finding]
  | .update _ finding _ => [finding, .emptyDeclaration]
  | .standAlone _ => [.emptyDeclaration]
  | .rejectReference _ => [.nonVariableByReference]
  | _ => []

/-- The token that a command reads, if it is a plain read of a known variable. -/
def Command.readToken? : Command → Option Token
  | .read token | .update token _ false => some token
  | _ => none

theorem Command.valueNotUsed_not_mem_findings {c : Command} (h : c.isGuarded) : .valueNotUsed ∉ c.findings := by
  cases c with
  | autovivify token finding =>
      intro hmem
      obtain rfl := List.mem_singleton.mp hmem
      cases h
  | update token finding isAlone =>
      intro hmem
      obtain rfl : .valueNotUsed = finding := by simpa [findings] using hmem
      cases h
  | _ => simp [findings]

namespace ScanContext

variable {ctx : ScanContext} {st : ScanState} {c : Command}
variable {token : Token} {k : Nat} {d : Defect}

/-- **A command finds what it can find.** -/
theorem mem_findings (hfound : ctx.found? st c = some d) : d.finding ∈ c.findings := by
  have hmissing : ∀ {token : Token} {lenient : Bool} {level : Nat}, ctx.missing? token lenient level st = some d →
      d.finding ∈ [Finding.undefined, .possiblyUndefined] := by
    intro token lenient level h
    unfold missing? at h
    split at h
    · cases h
    · split at h <;> cases h <;> simp
  cases c with
  | applySwitch i =>
      obtain ⟨trigger, _, rfl⟩ := Option.map_eq_some_iff.mp hfound
      exact List.mem_singleton_self _
  | read token | readLeniently token =>
      dsimp only [found?] at hfound
      split at hfound
      · cases hfound
      · exact hmissing hfound
  | check token | checkOuter token => exact hmissing hfound
  | autovivify token finding =>
      dsimp only [found?] at hfound
      split at hfound <;> cases hfound
      exact List.mem_singleton_self _
  | update token finding isAlone =>
      dsimp only [found?] at hfound
      split at hfound
      · split at hfound <;> cases hfound
        simp [Command.findings]
      · cases hfound
        simp [Command.findings]
  | standAlone token | rejectReference token =>
      cases hfound
      exact List.mem_singleton_self _
  | _ => cases hfound

/-- No command of a scan finds that a value is not used. -/
theorem ne_valueNotUsed_of_reportsAt (hreport : ctx.ReportsAt k d) : d.finding ≠ .valueNotUsed := by
  obtain ⟨c, hk, hfound⟩ := ctx.exists_found_of_reportsAt hreport
  have hfinding := mem_findings hfound
  intro hvalue
  rw [hvalue] at hfinding
  rcases guarded_or_checksAt hk with hguarded | ⟨_, _, _, _, _, hchecks⟩
  · exact Command.valueNotUsed_not_mem_findings hguarded hfinding
  · -- what a construct emits itself is a check
    obtain ⟨_, _, rfl | rfl⟩ := hchecks.eq_check <;> simp [Command.findings] at hfinding

/-! ## The status of a variable through the moments -/

theorem fileStatus_stateAt_succ (hk : ctx.history[k]? = some c) (name : String) :
    (ctx.stateAt (k + 1)).scopes.fileStatus name = ctx.fileStatusAfter c (ctx.stateAt k) name := by
  obtain ⟨hreach, hparameter⟩ := ctx.lt_depth hk
  rw [ctx.stateAt_succ hk]
  exact fileStatus_perform (ctx.fileOwns_stateAt k) hreach hparameter

/-- One more moment: the variable is assigned or used or left as it was. -/
theorem fileStatus_step (k : Nat) (name : String) :
    (ctx.AssignsAt k name ∧ (ctx.stateAt (k + 1)).scopes.fileStatus name = some .assigned)
      ∨ (¬ ctx.AssignsAt k name ∧ ctx.UsesAt k name ∧ (ctx.stateAt (k + 1)).scopes.fileStatus name = some .used)
      ∨ (¬ ctx.AssignsAt k name ∧ ¬ ctx.UsesAt k name
        ∧ (ctx.stateAt (k + 1)).scopes.fileStatus name = (ctx.stateAt k).scopes.fileStatus name) := by
  cases hk : ctx.history[k]? with
  | none =>
      have hnone : ∀ p : Command → Prop, ¬ ∃ c, ctx.history[k]? = some c ∧ p c := by simp [hk]
      exact .inr (.inr ⟨hnone _, hnone _, by rw [ctx.stateAt_succ_of_none hk]⟩)
  | some c =>
      have hassigns : ctx.AssignsAt k name ↔ ctx.assignsFile c (ctx.stateAt k) name := by simp [AssignsAt, hk]
      have huses : ctx.UsesAt k name ↔ ctx.usesFile c (ctx.stateAt k) name := by simp [UsesAt, hk]
      rw [hassigns, huses, fileStatus_stateAt_succ hk, fileStatusAfter]
      split
      · next h => exact .inl ⟨h, rfl⟩
      · next h =>
          split
          · next h' => exact .inr (.inl ⟨h, h', rfl⟩)
          · next h' => exact .inr (.inr ⟨h, h', rfl⟩)

/-- **The status of a variable of the file scope** is that it is assigned exactly if a command assigned it and none
    used it since; otherwise it is used or not known. -/
theorem fileStatus_eq_assigned_iff (n : Nat) (name : String) :
    ((ctx.stateAt n).scopes.fileStatus name = some .assigned
        ↔ ∃ k, k < n ∧ ctx.AssignsAt k name ∧ ∀ j, k < j → j < n → ¬ ctx.UsesAt j name)
      ∧ (ctx.stateAt n).scopes.fileStatus name ≠ some .unknown := by
  induction n with
  | zero =>
      rw [stateAt_zero]
      have hnone : (({} : ScanState).scopes).fileStatus name = none := rfl
      simp [hnone]
  | succ n ih =>
      rcases ctx.fileStatus_step n name with
        ⟨hassigns, hstatus⟩ | ⟨hassigns, huses, hstatus⟩ | ⟨hassigns, huses, hstatus⟩
      · -- assigned now: this assignment has no use behind it yet
        rw [hstatus]
        refine ⟨iff_of_true rfl ⟨n, Nat.lt_succ_self n, hassigns, fun j hn hj => ?_⟩, by simp⟩
        omega
      · -- used now: behind every earlier assignment
        rw [hstatus]
        refine ⟨iff_of_false (by simp) ?_, by simp⟩
        rintro ⟨k, hk, hassigned, hunused⟩
        rcases Nat.lt_succ_iff_lt_or_eq.mp hk with hlt | rfl
        · exact hunused n hlt (Nat.lt_succ_self n) huses
        · exact hassigns hassigned
      · -- neither: what held before holds now
        rw [hstatus]
        refine ⟨ih.1.trans ⟨?_, ?_⟩, ih.2⟩
        · rintro ⟨k, hk, hassigned, hunused⟩
          refine ⟨k, Nat.lt_succ_of_lt hk, hassigned, fun j hkj hj => ?_⟩
          rcases Nat.lt_succ_iff_lt_or_eq.mp hj with hlt | rfl
          · exact hunused j hkj hlt
          · exact huses
        · rintro ⟨k, hk, hassigned, hunused⟩
          rcases Nat.lt_succ_iff_lt_or_eq.mp hk with hlt | rfl
          · exact ⟨k, hlt, hassigned, fun j hkj hj => hunused j hkj (Nat.lt_succ_of_lt hj)⟩
          · exact absurd hassigned hassigns

/-! ## The end of a scan -/

theorem mem_fileVariables {stack : ScopeStack} (h : stack.depth = 1) {v : Variable} :
    v ∈ stack.fileVariables ↔ ∃ name, lastVariable? name stack.frames = some v := by
  obtain ⟨file, hfile⟩ : ∃ file, stack.frames = [file] := List.length_eq_one_iff.mp h
  rw [ScopeStack.fileVariables, h, hfile]
  show v ∈ variablesOf [file] ↔ ∃ name, findVariable? name [file] = some v
  rw [variablesOf, List.mem_filterMap]
  refine exists_congr fun name => and_iff_right_of_imp fun hv => ?_
  -- a name that stands for a variable is known
  rw [← Frame.declares_iff]
  by_contra hnot
  simp [findVariable?, Frame.lookup_eq_none_iff.mpr hnot] at hv

theorem mem_foldl_report {token : Variable → Token} {severity : Severity} {finding : Finding} {vs : List Variable}
    {st : ScanState} :
    d ∈ (vs.foldl (fun st v => ctx.report (token v) severity finding st) st).defects
      ↔ d ∈ st.defects ∨ severity.atLeast ctx.level ∧ ∃ v ∈ vs, d = ⟨token v, severity, finding⟩ := by
  induction vs generalizing st with
  | nil => simp
  | cons v vs ih =>
      rw [List.foldl_cons, ih, report]
      split
      · next h => simp [h, or_assoc, or_comm]
      · next h => simp [h]

/-- What the end of a scan adds. -/
theorem mem_defects_finish {final : ScanState} (hfinish : ctx.finish st = .ok final) :
    d ∈ final.defects ↔ d ∈ st.defects ∨ Severity.notice.atLeast ctx.level
      ∧ ∃ name v, lastVariable? name st.scopes.frames = some v ∧ isUnused v
        ∧ d = ⟨v.token, .notice, .valueNotUsed⟩ := by
  unfold finish at hfinish
  dsimp only at hfinish
  split at hfinish
  · next hdepth =>
      obtain rfl := Except.ok.inj hfinish
      have hne : ScopeStack.dropFinishedFrames ctx.file.size st.scopes.frames ≠ [] :=
        List.length_pos_iff.mp (Nat.lt_of_lt_of_eq Nat.one_pos hdepth.symm)
      have hvariables : ∀ v, v ∈ (st.scopes.dropFinished ctx.file.size).fileVariables
          ↔ ∃ name, lastVariable? name st.scopes.frames = some v := by
        intro v
        have hone : (st.scopes.dropFinished ctx.file.size).depth = 1 := hdepth
        rw [mem_fileVariables hone]
        refine exists_congr fun name => ?_
        rw [← lastVariable?_of_suffix name (dropFinishedFrames_suffix ctx.file.size st.scopes.frames) hne]
        rfl
      rw [mem_foldl_report]
      refine or_congr Iff.rfl (and_congr_right' ⟨?_, ?_⟩)
      · rintro ⟨v, hv, rfl⟩
        obtain ⟨hmem, hunused⟩ := List.mem_filter.mp hv
        obtain ⟨name, hname⟩ := (hvariables v).mp hmem
        exact ⟨name, v, hname, hunused, rfl⟩
      · rintro ⟨name, v, hname, hunused, rfl⟩
        exact ⟨v, List.mem_filter.mpr ⟨(hvariables v).mpr ⟨name, hname⟩, hunused⟩, rfl⟩
  · cases hfinish

/-- The status in which the steps of a scan leave a variable of the file scope. -/
theorem fileStatus_end_iff (name : String) :
    (ctx.stateAt ctx.history.length).scopes.fileStatus name = some .assigned
      ↔ ∃ k, ctx.AssignsAt k name ∧ ∀ j, k < j → ¬ ctx.UsesAt j name := by
  rw [(fileStatus_eq_assigned_iff _ name).1]
  constructor
  · rintro ⟨k, _, hassigned, hunused⟩
    exact ⟨k, hassigned, fun j hkj huses => hunused j hkj huses.lt_length huses⟩
  · rintro ⟨k, hassigned, hunused⟩
    exact ⟨k, hassigned.lt_length, hassigned, fun j hkj _ => hunused j hkj⟩

theorem isUnused_iff {v : Variable} : isUnused v ↔ v.status ≠ .used ∧ v.name ∉ superglobals := by
  simp [isUnused]

/-- **The variables that a scan reports as not used**: those that a command assigned and none used since. -/
theorem unused_iff {final : ScanState} (hscan : ctx.scan = .ok final) (name : String) :
    (∃ d ∈ final.defects, d.finding = .valueNotUsed ∧ d.token.text = name)
      ↔ Severity.notice.atLeast ctx.level ∧ name ∉ superglobals
        ∧ ∃ k, ctx.AssignsAt k name ∧ ∀ j, k < j → ¬ ctx.UsesAt j name := by
  obtain ⟨st, hst, hfinish⟩ := ctx.scan_eq_ok.mp hscan
  obtain rfl := ctx.stateAt_length_history hst
  have hnamed := ctx.lastNamed_stateAt ctx.history.length
  have hknown : (ctx.stateAt ctx.history.length).scopes.fileStatus name ≠ some .unknown :=
    (fileStatus_eq_assigned_iff _ name).2
  rw [← fileStatus_end_iff]
  constructor
  · rintro ⟨d, hd, hfinding, rfl⟩
    rcases (mem_defects_finish hfinish).mp hd with hbefore | ⟨hlevel, name, v, hv, hunused, rfl⟩
    · obtain ⟨k, _, hreport⟩ := mem_defects_iff.mp hbefore
      exact absurd hfinding (ne_valueNotUsed_of_reportsAt hreport)
    · obtain ⟨hstatus, hsuper⟩ := isUnused_iff.mp hunused
      obtain rfl : v.token.text = name := hnamed name v hv
      have heq : (ctx.stateAt ctx.history.length).scopes.fileStatus v.token.text = some v.status := by
        rw [ScopeStack.fileStatus, hv, Option.map_some]
      rw [heq] at hknown ⊢
      refine ⟨hlevel, hsuper, congrArg some ?_⟩
      cases hcase : v.status with
      | unknown => exact absurd (congrArg some hcase) hknown
      | assigned => rfl
      | used => exact absurd hcase hstatus
  · rintro ⟨hlevel, hsuper, hstatus⟩
    obtain ⟨v, hv, hassigned⟩ := Option.map_eq_some_iff.mp hstatus
    have hname := hnamed name v hv
    have hunused : isUnused v := isUnused_iff.mpr ⟨by simp [hassigned], by rwa [hname]⟩
    exact ⟨_, (mem_defects_finish hfinish).mpr (.inr ⟨hlevel, name, v, hv, hunused, rfl⟩), rfl, hname⟩

/-! ## Reads in the file scope -/

/-- The command after moment `k` is a plain read, in the file scope, of a variable that is known there. -/
structure ReadsFileAt (ctx : ScanContext) (k : Nat) (token : Token) : Prop where
  reads : (ctx.history[k]?).bind Command.readToken? = some token
  fileScope : (ctx.stateAt k).scopes.depth = 1
  known : (ctx.stateAt k).scopes.declares 0 token.text

instance (ctx : ScanContext) (k : Nat) (token : Token) : Decidable (ctx.ReadsFileAt k token) :=
  decidable_of_iff ((ctx.history[k]?).bind Command.readToken? = some token ∧ (ctx.stateAt k).scopes.depth = 1
      ∧ (ctx.stateAt k).scopes.declares 0 token.text)
    ⟨fun h => ⟨h.1, h.2.1, h.2.2⟩, fun h => ⟨h.reads, h.fileScope, h.known⟩⟩

/-- After the command that follows moment `k`, the variable of a name of the file scope is not assigned. -/
def LeavesFile (ctx : ScanContext) (k : Nat) (name : String) : Prop :=
  ∀ j, k < j → ¬ ctx.AssignsAt j name

instance (ctx : ScanContext) (k : Nat) (name : String) : Decidable (ctx.LeavesFile k name) :=
  decidable_of_iff (∀ j, j < ctx.history.length → k < j → ¬ ctx.AssignsAt j name)
    ⟨fun hall j hkj hassigns => hall j hassigns.lt_length hkj hassigns, fun h j _ hkj => h j hkj⟩

theorem ReadsFileAt.exists_command (h : ctx.ReadsFileAt k token) :
    ∃ c, ctx.history[k]? = some c ∧ c.reach = 0 ∧ ctx.assigned? c (ctx.stateAt k) = none
      ∧ ctx.checked? c (ctx.stateAt k) = ctx.checked? (.read token) (ctx.stateAt k) := by
  obtain ⟨c, hk, hread⟩ := Option.bind_eq_some_iff.mp h.reads
  have hknown : ctx.isKnown (ctx.stateAt k) 0 token.text := isKnown_of_declares h.known
  refine ⟨c, hk, ?_⟩
  cases c with
  | read t =>
      obtain rfl := Option.some.inj hread
      refine ⟨rfl, ?_, rfl⟩
      rw [assigned?_of_isCheck rfl, checked?]
      split
      · rfl
      · rw [Option.bind_some, if_pos hknown]
  | update t finding isAlone =>
      cases isAlone with
      | true => cases hread
      | false =>
          obtain rfl := Option.some.inj hread
          refine ⟨rfl, ?_, ?_⟩
          · simp [assigned?, hknown]
          · simp [checked?, hknown]
  | _ => cases hread

/-- **When a read counts.** -/
theorem ReadsFileAt.usesAt_iff (h : ctx.ReadsFileAt k token) :
    ctx.UsesAt k token.text ↔ token.index ∉ (ctx.stateAt k).consumed ∧ ctx.checkFileScope
      ∧ token.text ∉ superglobals ∧ token.text ∉ ctx.knownGlobals := by
  obtain ⟨c, hk, hreach, _, hchecked⟩ := h.exists_command
  have hpre : ¬ ctx.isPredefined (ctx.stateAt k) 0 token.text
      ↔ token.text ∉ superglobals ∧ token.text ∉ ctx.knownGlobals := by
    simp [isPredefined, h.fileScope]
  have hshares : (ctx.stateAt k).scopes.SharesFile 0 token.text := by
    obtain ⟨file, hfile⟩ : ∃ file, (ctx.stateAt k).scopes.frames = [file] := List.length_eq_one_iff.mp h.fileScope
    have hknown := h.known
    simpa [ScopeStack.SharesFile, ScopeStack.declares, ScopeStack.frame?, hfile, standsForLast] using hknown
  have hcut : ((ctx.stateAt k).consumed.contains token.index || ctx.skipsReads (ctx.stateAt k))
      ↔ ¬ (token.index ∉ (ctx.stateAt k).consumed ∧ ctx.checkFileScope) := by
    simp [skipsReads, h.fileScope, imp_iff_not_or]
  have huses : ctx.UsesAt k token.text ↔ ctx.usesFile c (ctx.stateAt k) token.text := by simp [UsesAt, hk]
  rw [huses, usesFile, hchecked, hreach, checked?, ← hpre, ← and_assoc]
  split
  · next h => exact iff_of_false (by simp) fun hboth => hcut.mp h hboth.1
  · next h =>
      rw [Option.any_some, decide_eq_true_iff, and_iff_right rfl, and_iff_left hshares]
      exact (and_iff_right (not_not.mp (mt hcut.mpr h))).symm

theorem ReadsFileAt.not_assignsAt (h : ctx.ReadsFileAt k token) (name : String) : ¬ ctx.AssignsAt k name := by
  obtain ⟨c, hk, _, hassigned, _⟩ := h.exists_command
  simp [AssignsAt, hk, assignsFile, hassigned]

end ScanContext

/-! ## The run -/

namespace Linter

/-- **A value of the file scope is reported as not used** exactly if it was assigned and no command used it since. A
    plain read of a known variable in the file scope is a use unless a construct has dealt with its token, the file
    scope is not checked, or the name is set beforehand. So a read that is none of these keeps its variable from the
    report, unless the variable is assigned again. -/
theorem unusedValue_reports (linter : Linter) {name source : String} {file : SourceFile}
    (hfile : SourceFile.ofSource name source = .ok file) {defects : List Defect}
    (hlint : linter.lintSource name source = .ok defects) (x : String) :
    let ctx := linter.context file
    -- what is reported
    ((∃ d ∈ defects, d.finding = .valueNotUsed ∧ d.token.text = x)
      ↔ Severity.notice.atLeast linter.level ∧ x ∉ superglobals
        ∧ ∃ k, ctx.AssignsAt k x ∧ ∀ j, k < j → ¬ ctx.UsesAt j x)
    ∧ ∀ k token, ctx.ReadsFileAt k token → token.text = x →
      -- which reads count
      (ctx.UsesAt k x ↔ token.index ∉ (ctx.stateAt k).consumed ∧ linter.checkFileScope
        ∧ x ∉ superglobals ∧ x ∉ linter.knownGlobals)
      -- and what they keep from being reported
      ∧ (token.index ∉ (ctx.stateAt k).consumed → linter.checkFileScope → x ∉ linter.knownGlobals →
        ctx.LeavesFile k x → ¬ ∃ d ∈ defects, d.finding = .valueNotUsed ∧ d.token.text = x) := by
  intro ctx
  have hreported : (∃ d ∈ defects, d.finding = .valueNotUsed ∧ d.token.text = x)
      ↔ Severity.notice.atLeast linter.level ∧ x ∉ superglobals
        ∧ ∃ k, ctx.AssignsAt k x ∧ ∀ j, k < j → ¬ ctx.UsesAt j x := by
    obtain ⟨final, hscan, rfl⟩ := (lintSource_eq_ok hfile).mp hlint
    simp only [List.mem_reverse]
    exact ScanContext.unused_iff hscan x
  refine ⟨hreported, ?_⟩
  rintro k token hread rfl
  have huses := hread.usesAt_iff
  refine ⟨huses, fun hconsumed hcheck hglobal hlater hunused => ?_⟩
  obtain ⟨_, hsuper, j, hassigns, hnot⟩ := hreported.mp hunused
  -- the last assignment comes before the read, which uses the value
  rcases Nat.lt_trichotomy j k with hlt | rfl | hgt
  · exact hnot k hlt (huses.mpr ⟨hconsumed, hcheck, hsuper, hglobal⟩)
  · exact hread.not_assignsAt _ hassigns
  · exact hlater j hgt hassigns

/-- A variable that an arrow function assigns again before it is read. -/
def readAfterArrow : String :=
  "<?php $x = 1; $f = fn() => $x = 2; echo $x;"

theorem readAfterArrow_run : ∃ file, SourceFile.ofSource "f.php" readAfterArrow = .ok file
    ∧ let ctx := plain.context file
      (plain.lintSource "f.php" readAfterArrow).isOk ∧ ctx.ReadsFileAt 80 ⟨.var, "$x", 1, 27⟩
      ∧ 27 ∉ (ctx.stateAt 80).consumed ∧ ctx.AssignsAt 51 "$x" ∧ ctx.LeavesFile 80 "$x" :=
  exists_ok_of_decide (by decide +kernel)

/-- The read that comes after the arrow function keeps the variable from the report. -/
theorem readAfterArrow_notReported : ∃ file defects, SourceFile.ofSource "f.php" readAfterArrow = .ok file
    ∧ plain.lintSource "f.php" readAfterArrow = .ok defects
    ∧ (plain.context file).ReadsFileAt 80 ⟨.var, "$x", 1, 27⟩ ∧ (plain.context file).AssignsAt 51 "$x"
    ∧ (plain.context file).UsesAt 80 "$x" ∧ ¬ ∃ d ∈ defects, d.finding = .valueNotUsed ∧ d.token.text = "$x" := by
  obtain ⟨file, hfile, hok, hread, hconsumed, hassigns, hlater⟩ := readAfterArrow_run
  obtain ⟨defects, hlint⟩ : ∃ defects, plain.lintSource "f.php" readAfterArrow = .ok defects := by
    cases h : plain.lintSource "f.php" readAfterArrow with
    | error e => simp [h, Except.isOk, Except.toBool] at hok
    | ok defects => exact ⟨defects, rfl⟩
  obtain ⟨huses, hnot⟩ := (unusedValue_reports plain hfile hlint "$x").2 80 _ hread rfl
  exact ⟨file, defects, hfile, hlint, hread, hassigns, huses.mpr ⟨hconsumed, rfl, by decide, by decide⟩,
    hnot hconsumed rfl (by decide) hlater⟩

/-- A variable that is assigned and read. -/
def readOnce : String :=
  "<?php $x = 1; echo $x;"

/-- A linter that reports everything and does not check the file scope. -/
def uncheckedFileScope : Linter :=
  ⟨.notice, false, defaultGlobals, []⟩

theorem readOnce_run : ∃ file, SourceFile.ofSource "f.php" readOnce = .ok file
    ∧ let ctx := uncheckedFileScope.context file
      (uncheckedFileScope.lintSource "f.php" readOnce).toOption
        = some [⟨⟨.var, "$x", 1, 1⟩, .notice, .valueNotUsed⟩]
      ∧ ctx.ReadsFileAt 36 ⟨.var, "$x", 1, 10⟩ ∧ ctx.LeavesFile 36 "$x" :=
  exists_ok_of_decide (by decide +kernel)

/-- In a file scope that is not checked, a value that is read is reported as one that is not. -/
theorem readOnce_reported : ofSettings { checkFileScope := false } [] = .ok uncheckedFileScope
    ∧ (uncheckedFileScope.lintSource "f.php" readOnce).toOption = some [⟨⟨.var, "$x", 1, 1⟩, .notice, .valueNotUsed⟩]
    ∧ ∃ file, SourceFile.ofSource "f.php" readOnce = .ok file
      ∧ (uncheckedFileScope.context file).ReadsFileAt 36 ⟨.var, "$x", 1, 10⟩
      ∧ (uncheckedFileScope.context file).LeavesFile 36 "$x" := by
  obtain ⟨file, hfile, hlint, hread, hlater⟩ := readOnce_run
  exact ⟨by rfl, hlint, file, hfile, hread, hlater⟩

end Linter

end Unassigned
