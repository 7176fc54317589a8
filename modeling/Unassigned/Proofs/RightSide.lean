import Unassigned.Proofs.Discipline
import Unassigned.Proofs.FileScopeSwitch
import Unassigned.Proofs.FileVariable

/-!
# `Proofs.RightSide` — the right side of an assignment

A scan meets the left side of `$x = …` first, and the step there makes `$x` known at once. So the right side is
checked against a scope that knows `$x` already: a right side that reads the variable it is assigned to reads it
without a report, although at run time it is evaluated before the variable has a value. Every other name on the right
side is checked as anywhere else.
-/

namespace Unassigned

namespace SourceFile

variable {f : SourceFile} {i : Nat}

/-- A variable as a whole is assigned at a place: `$x = …`. -/
structure Assigns (f : SourceFile) (i : Nat) : Prop where
  isVar : f.kind i = .var
  outsideClass : f.inClassBody i = false
  notStatic : f.prevIs i .doubleColon = false
  notDynamic : f.prevAny i (fun kind => kind == .char '$' || kind.isObjectOperator) = false
  equals : f.nextIs i '='

instance : Decidable (f.Assigns i) :=
  decidable_of_iff (f.kind i = .var ∧ f.inClassBody i = false ∧ f.prevIs i .doubleColon = false
      ∧ f.prevAny i (fun kind => kind == .char '$' || kind.isObjectOperator) = false ∧ f.nextIs i '=')
    ⟨fun ⟨hvar, hclass, hstatic, hdynamic, hequals⟩ => ⟨hvar, hclass, hstatic, hdynamic, hequals⟩,
      fun h => ⟨h.isVar, h.outsideClass, h.notStatic, h.notDynamic, h.equals⟩⟩

/-- A variable is read at a place, and nothing else happens to it there. -/
structure Reads (f : SourceFile) (i : Nat) : Prop where
  isVar : f.kind i = .var
  handled : f.handleVariable i = [.applyDocComment (f.token i), .read (f.token i)]

instance : Decidable (f.Reads i) :=
  decidable_of_iff (f.kind i = .var ∧ f.handleVariable i = [.applyDocComment (f.token i), .read (f.token i)])
    ⟨fun ⟨hvar, hhandled⟩ => ⟨hvar, hhandled⟩, fun h => ⟨h.isVar, h.handled⟩⟩

/-- At the left side of an assignment the variable is assigned, whatever the right side is. -/
theorem Assigns.handled (h : f.Assigns i) :
    f.handleVariable i = [.applyDocComment (f.token i), .assign (f.token i) .plain] := by
  obtain ⟨equals, hnext, hchar⟩ := (Option.any_eq_true _ _).mp h.equals
  have hbracket : f.isChar equals '[' = false := by
    rw [TokenStream.isChar_iff] at hchar
    simp [TokenStream.isChar, Token.isChar, TokenStream.kind] at hchar ⊢
    simp [hchar]
  have hafter : f.afterIndexes i = (some equals, false) := by
    rw [TokenStream.afterIndexes]
    split
    · next hnone => cases hnone.symm.trans hnext
    · next j hj =>
        obtain rfl := Option.some.inj (hnext.symm.trans hj)
        rw [if_neg (by simp [hbracket])]
  have hoccurrence : f.handleOccurrence i = .assign (f.token i) .plain := by
    unfold TokenStream.handleOccurrence
    simp only [hafter]
    rw [if_pos (by simp [TokenStream.isChar_iff.mp hchar])]
    rfl
  rw [handleVariable, if_neg (by simp [h.outsideClass, h.notStatic]), h.notDynamic, hoccurrence]
  rfl

end SourceFile

namespace ScanContext

variable {ctx : ScanContext}
variable {i t n : Nat} {st : ScanState}

/-! ## One step at a variable -/

theorem after_variable (hvar : ctx.file.kind i = .var) (st : ScanState) :
    ctx.after i st = ctx.execute (ctx.file.handleVariable i) (ctx.arrive i st) := by
  rw [ctx.after_eq, dispatch]
  simp only [hvar]
  rfl

theorem StepAt.stateAt_arrived (h : ctx.StepAt t n i) (hi : i < ctx.file.size) :
    ctx.stateAt (n + 3) = ctx.arrive i (ctx.stateAt n) := by
  have hlength : 3 ≤ (ctx.plan i (ctx.stateAt n)).commands.length := by
    rw [ctx.commands_plan, List.length_append]
    exact Nat.le_add_right _ _
  rw [h.stateAt_add hi hlength, ctx.commands_plan]
  rfl

theorem StepAt.staysOpen_arrive (h : ctx.StepAt t n i) (hi : i < ctx.file.size) {height : Nat}
    (hheight : height < (ctx.arrive i (ctx.stateAt n)).scopes.depth) : ctx.StaysOpen height n (n + 3) := by
  intro k hnk hk
  refine h.staysOpen hi h.depth_pos hheight k hnk ?_
  rw [ctx.commands_plan, List.length_append]
  exact Nat.le_trans hk (Nat.add_le_add_left (Nat.le_add_right 3 _) n)

/-- The scope around a step does not lose a name on arrival. -/
theorem StepAt.isKnown_arrive (h : ctx.StepAt t n i) (hi : i < ctx.file.size) {height : Nat}
    (hdepth : (ctx.arrive i (ctx.stateAt n)).scopes.depth = height + 1) {name : String}
    (hknown : ctx.KnownAt n height name) : ctx.isKnown (ctx.arrive i (ctx.stateAt n)) 0 name := by
  have harrived := ctx.knownAt_of_staysOpen (Nat.le_add_right n 3) (h.staysOpen_arrive hi (by omega)) hknown
  rw [KnownAt, h.stateAt_arrived hi] at harrived
  rw [isKnown_iff (by omega), show (ctx.arrive i (ctx.stateAt n)).scopes.depth - 1 - 0 = height by omega]
  exact .inr harrived

/-- A strict scope is not that of the file. -/
theorem StepAt.depth_ne_one (h : ctx.StepAt t n i) (hi : i < ctx.file.size)
    (hstrict : (ctx.arrive i (ctx.stateAt n)).scopes.modeAt 0 = .strict) :
    (ctx.arrive i (ctx.stateAt n)).scopes.depth ≠ 1 := by
  intro hone
  have hstart : ctx.frameAt 0 0 = some { mode := .relaxed } := by
    rw [frameAt, stateAt_zero]
    rfl
  have hopen : ctx.StaysOpen 0 0 (n + 3) := h.staysOpen_file.trans (h.staysOpen_arrive hi (by omega))
  obtain ⟨file, hfile, hevolves⟩ := ctx.evolves_of_staysOpen (Nat.zero_le _) hopen hstart
  rw [frameAt, h.stateAt_arrived hi] at hfile
  have hlevel : (ctx.arrive i (ctx.stateAt n)).scopes.frame? 0 = some file := by
    rw [ScopeStack.frame?_eq_atHeight (by omega), hone]
    exact hfile
  rw [ScopeStack.modeAt, hlevel] at hstrict
  cases hstrict.symm.trans (hevolves.relaxed rfl)

theorem depth_applyDocComment (token : Token) (st : ScanState) :
    (applyDocComment token st).scopes.depth = st.scopes.depth :=
  (applyDocComment_steps token st).grow.1.length_eq.symm

/-- In a strict scope an annotation makes no name known. -/
theorem applyDocComment_strict (token : Token) (hstrict : st.scopes.modeAt 0 = .strict) :
    (applyDocComment token st).scopes.modeAt 0 = .strict ∧ (applyDocComment token st).consumed = st.consumed
      ∧ ∀ name, (applyDocComment token st).scopes.declares 0 name = st.scopes.declares 0 name := by
  -- the type may be noted in the scope, but nothing is declared
  have hnoted : ∀ (noted : ScanState) (note : Frame → Frame), noted.scopes = st.scopes.modifyTop note →
      noted.consumed = st.consumed → (∀ frame, (note frame).bindings = frame.bindings) →
      (∀ frame, (note frame).mode = frame.mode) →
      let done := if noted.scopes.modeAt 0 == .relaxed then noted.declare 0 token else noted
      done.scopes.modeAt 0 = .strict ∧ done.consumed = st.consumed
        ∧ ∀ name, done.scopes.declares 0 name = st.scopes.declares 0 name := by
    intro noted note hscopes hconsumed hbindings hmode done
    have hstill : noted.scopes.modeAt 0 = .strict := by
      rw [hscopes, ScopeStack.modeAt_modifyTop hmode, hstrict]
    have hdone : done = noted := if_neg (by simp [hstill])
    rw [hdone]
    refine ⟨hstill, hconsumed, fun name => ?_⟩
    rw [hscopes, ScopeStack.declares_modifyTop hbindings]
  unfold applyDocComment
  cases st.annotations.lookup token.text with
  | none => exact ⟨hstrict, rfl, fun _ => rfl⟩
  | some type =>
      cases type with
      | none => exact hnoted st id (by simp [ScopeStack.modifyTop]) rfl (fun _ => rfl) (fun _ => rfl)
      | some type => exact hnoted _ _ rfl rfl (fun _ => rfl) (fun _ => rfl)

/-- At the left side of an assignment the variable becomes known, and nothing is reported. -/
theorem after_assigns (h : ctx.file.Assigns i) (hst : 0 < (ctx.arrive i st).scopes.depth) :
    (ctx.after i st).scopes.depth = (ctx.arrive i st).scopes.depth
      ∧ (ctx.after i st).scopes.declares 0 (ctx.file.text i)
      ∧ (ctx.after i st).defects = (ctx.arrive i st).defects := by
  rw [after_variable h.isVar, h.handled]
  have hdepth := depth_applyDocComment (ctx.file.token i) (ctx.arrive i st)
  have hdeclares := ScanState.declares_assignWith (by rwa [hdepth]) (ctx.file.token i) (Role.plain.mark_token)
  refine ⟨?_, hdeclares, (ctx.applyDocComment_notes _ _).defects⟩
  exact (ScanState.depth_assign _ 0 (ctx.file.token i)).trans hdepth

/-- A plain read of a known name reports nothing. -/
theorem defects_of_known (hreads : ctx.file.Reads i) (hst : 0 < (ctx.arrive i st).scopes.depth)
    (hknown : ctx.isKnown (ctx.arrive i st) 0 (ctx.file.text i)) :
    (ctx.after i st).defects = (ctx.arrive i st).defects := by
  have hannotated : ctx.isKnown (applyDocComment (ctx.file.token i) (ctx.arrive i st)) 0 (ctx.file.text i) :=
    isKnown_perform (c := .applyDocComment (ctx.file.token i)) (Command.keepsDepth_of_isLocal rfl) hst hknown
  rw [after_variable hreads.isVar, hreads.handled]
  show (ctx.perform (.read (ctx.file.token i)) (applyDocComment _ _)).defects = _
  have hfound : ctx.found? (applyDocComment (ctx.file.token i) (ctx.arrive i st)) (.read (ctx.file.token i))
      = none := by
    dsimp only [found?]
    split
    · rfl
    · exact if_pos hannotated
  rw [(perform_notes _ _).defects, hfound]
  exact (ctx.applyDocComment_notes _ _).defects

/-- **What a plain read reports in a strict scope**: the variable as undefined, if it is not known. -/
theorem StepAt.defects_of_reads (h : ctx.StepAt t n i) (hreads : ctx.file.Reads i)
    (hstrict : (ctx.arrive i (ctx.stateAt n)).scopes.modeAt 0 = .strict)
    (hfresh : (ctx.file.token i).index ∉ (ctx.arrive i (ctx.stateAt n)).consumed) :
    (ctx.after i (ctx.stateAt n)).defects = if ctx.isKnown (ctx.arrive i (ctx.stateAt n)) 0 (ctx.file.text i)
      then (ctx.arrive i (ctx.stateAt n)).defects
      else ⟨ctx.file.token i, .error, .undefined⟩ :: (ctx.arrive i (ctx.stateAt n)).defects := by
  have hi : i < ctx.file.size := TokenStream.lt_size_of_kind (by simp [hreads.isVar])
  have hdepth := h.depth_ne_one hi hstrict
  rw [after_variable hreads.isVar, hreads.handled]
  show (ctx.perform (.read _) (applyDocComment _ _)).defects = _
  generalize ctx.arrive i (ctx.stateAt n) = st at *
  have hdepth' := depth_applyDocComment (ctx.file.token i) st
  obtain ⟨hmode, hconsumed, hdeclares⟩ := applyDocComment_strict (ctx.file.token i) hstrict
  have hskips : ¬ ((applyDocComment (ctx.file.token i) st).consumed.contains (ctx.file.token i).index
      || ctx.skipsReads (applyDocComment (ctx.file.token i) st)) := by
    simp [hconsumed, hfresh, skipsReads, hdepth', hdepth]
  have hknown : ctx.isKnown (applyDocComment (ctx.file.token i) st) 0 (ctx.file.token i).text
      = ctx.isKnown st 0 (ctx.file.text i) := by
    rw [isKnown, isKnown, isPredefined, isPredefined, hdepth', hdeclares]
    rfl
  rw [(perform_notes _ _).defects, found?, if_neg hskips, missing?, hknown, hmode,
    (ctx.applyDocComment_notes (ctx.file.token i) st).defects]
  split
  · rfl
  · -- an error is reported at every level
    rw [if_neg (by decide), Option.filter_some, if_pos (by cases ctx.level <;> rfl)]
    rfl

/-! ## The left side and what comes after it -/

/-- **The right side of an assignment sees its left side.** For the scan of any file with any settings: the step at the
    left side of `$x = …` makes `$x` known in the scope around it and reports nothing. From then on nothing that is
    done in this scope reports `$x` as missing; in particular a read of `$x` on the right side reports nothing, whether
    or not the scope knew `$x` before. In a strict scope, reads of other names are reported if the name is not known. -/
theorem StepAt.rightSide_sees_leftSide {t n i : Nat} (h : ctx.StepAt t n i) (hassigns : ctx.file.Assigns i) :
    let x := ctx.file.text i
    let height := (ctx.arrive i (ctx.stateAt n)).scopes.depth - 1
    let m := n + (ctx.plan i (ctx.stateAt n)).commands.length
    -- the left side
    ctx.KnownAt m height x ∧ (ctx.stateAt m).defects = (ctx.arrive i (ctx.stateAt n)).defects
    -- whatever is done in the scope afterwards
    ∧ (∀ k c d, m ≤ k → ctx.StaysOpen height m k → ctx.ActsAt k c height → ctx.ReportsAt k d →
        d.finding.isMissing → d.token.text ≠ x)
    -- plain reads in the scope
    ∧ ∀ t' n' j, ctx.StepAt t' n' j → t < t' → ctx.StaysOpen height m n' → ctx.file.Reads j →
        let before := ctx.arrive j (ctx.stateAt n')
        let after := ctx.after j (ctx.stateAt n')
        before.scopes.depth = height + 1 →
          (ctx.file.text j = x → after.defects = before.defects)
          ∧ (before.scopes.modeAt 0 = .strict → (ctx.file.token j).index ∉ before.consumed →
              after.defects = if ctx.isKnown before 0 (ctx.file.text j) then before.defects
                else ⟨ctx.file.token j, .error, .undefined⟩ :: before.defects) := by
  intro x height m
  have hi : i < ctx.file.size := TokenStream.lt_size_of_kind (by simp [hassigns.isVar])
  have hdepth := ctx.depth_arrive i h.depth_pos
  obtain ⟨hsame, hdeclares, hdefects⟩ := after_assigns hassigns hdepth
  rw [← h.stateAt_next hi] at hsame hdeclares hdefects
  have hknown : ctx.KnownAt m height x := by
    have hlevel : 0 < (ctx.stateAt m).scopes.depth := hsame ▸ hdepth
    have hheight : height = (ctx.stateAt m).scopes.depth - 1 - 0 := congrArg (· - 1) hsame.symm
    rw [KnownAt, hheight]
    exact (ScopeStack.declares_iff_knows hlevel).mp hdeclares
  refine ⟨hknown, hdefects, ?_, ?_⟩
  · intro k c d hmk hopen hacts hreport hmissing hname
    obtain ⟨_, hunknown, _⟩ := ctx.unknown_of_reportsAt hreport hmissing hacts
    rw [hname] at hunknown
    exact hunknown (ctx.knownAt_of_staysOpen hmk hopen hknown)
  · intro t' n' j h' htt hopen hreads before after hbefore
    refine ⟨fun hname => ?_, h'.defects_of_reads hreads⟩
    have hj : j < ctx.file.size := TokenStream.lt_size_of_kind (by simp [hreads.isVar])
    have hlater := ctx.knownAt_of_staysOpen (h.later h' htt).1 hopen hknown
    refine defects_of_known hreads (by show 0 < before.scopes.depth; omega) ?_
    rw [hname]
    exact h'.isKnown_arrive hj hbefore hlater

end ScanContext

namespace Linter

/-- A linter that reports errors only. -/
def errorsOnly : Linter :=
  ⟨.error, true, defaultGlobals, []⟩

/-- A right side that reads an unknown variable and the variable on the left. -/
def mixedReads : String :=
  "<?php function f() \x7b $x = $y . $x; \x7d"

theorem mixedReads_run : ∃ file, SourceFile.ofSource "f.php" mixedReads = .ok file
    ∧ let ctx := errorsOnly.context file
      ctx.StepAt 3 11 9 ∧ ctx.file.Assigns 9
      ∧ (ctx.arrive 9 (ctx.stateAt 11)).scopes.depth = 2
      ∧ (ctx.plan 9 (ctx.stateAt 11)).commands.length = 5
      ∧ ¬ ctx.isKnown (ctx.arrive 9 (ctx.stateAt 11)) 0 "$x"
      ∧ (ctx.StepAt 7 25 13 ∧ ctx.file.Reads 13 ∧ ctx.StaysOpen 1 16 25
        ∧ (ctx.arrive 13 (ctx.stateAt 25)).scopes.depth = 2
        ∧ (ctx.arrive 13 (ctx.stateAt 25)).scopes.modeAt 0 = .strict
        ∧ (ctx.file.token 13).index ∉ (ctx.arrive 13 (ctx.stateAt 25)).consumed
        ∧ ¬ ctx.isKnown (ctx.arrive 13 (ctx.stateAt 25)) 0 (ctx.file.text 13))
      ∧ ctx.StepAt 11 39 17 ∧ ctx.file.Reads 17 ∧ ctx.StaysOpen 1 16 39
        ∧ (ctx.arrive 17 (ctx.stateAt 39)).scopes.depth = 2 ∧ ctx.file.text 17 = ctx.file.text 9 :=
  exists_ok_of_decide (by decide +kernel)

/-- The variable on the left is not known before, but only the other one is reported. -/
theorem mixedReads_reports : ∃ file, SourceFile.ofSource "f.php" mixedReads = .ok file
    ∧ let ctx := errorsOnly.context file
      ctx.StepAt 3 11 9 ∧ ctx.file.Assigns 9 ∧ ¬ ctx.isKnown (ctx.arrive 9 (ctx.stateAt 11)) 0 "$x"
      ∧ ctx.StepAt 7 25 13 ∧ ctx.file.Reads 13 ∧ (ctx.after 13 (ctx.stateAt 25)).defects
        = ⟨ctx.file.token 13, .error, .undefined⟩ :: (ctx.arrive 13 (ctx.stateAt 25)).defects
      ∧ ctx.StepAt 11 39 17 ∧ ctx.file.Reads 17
      ∧ (ctx.after 17 (ctx.stateAt 39)).defects = (ctx.arrive 17 (ctx.stateAt 39)).defects := by
  obtain ⟨file, hfile, hstep, hassigns, hdepth, hlength, hunknown,
    ⟨hother, hreads, hopen, hsame, hstrict, hfresh, hmissing⟩, hself, hreads', hopen', hsame', hname⟩ := mixedReads_run
  obtain ⟨_, _, _, hall⟩ := hstep.rightSide_sees_leftSide hassigns
  rw [hdepth, hlength] at hall
  have hreported := (hall 7 25 13 hother (by decide) hopen hreads hsame).2 hstrict hfresh
  rw [if_neg hmissing] at hreported
  have hsilent := (hall 11 39 17 hself (by decide) hopen' hreads' hsame').1 hname
  exact ⟨file, hfile, hstep, hassigns, hunknown, hother, hreads, hreported, hself, hreads', hsilent⟩

/-- A right side that reads the variable on the left. -/
def selfRead : String :=
  "<?php function f() \x7b $x = $x + 1; \x7d"

theorem selfRead_run : ∃ file, SourceFile.ofSource "f.php" selfRead = .ok file
    ∧ let ctx := errorsOnly.context file
      (errorsOnly.lintSource "f.php" selfRead).toOption = some []
      ∧ ctx.StepAt 3 11 9 ∧ ctx.file.Assigns 9
      ∧ (ctx.arrive 9 (ctx.stateAt 11)).scopes.modeAt 0 = .strict
      ∧ ¬ ctx.isKnown (ctx.arrive 9 (ctx.stateAt 11)) 0 "$x"
      ∧ ctx.StepAt 7 25 13 ∧ ctx.file.Reads 13 ∧ ctx.file.token 13 = ⟨.var, "$x", 1, 13⟩
      ∧ ctx.file.statementEnd 9 = 18 :=
  exists_ok_of_decide (by decide +kernel)

/-- In a strict scope that does not know the variable it is read on the right side, and nothing is reported. -/
theorem selfRead_silent : ofSettings { level := "error" } [] = .ok errorsOnly
    ∧ (errorsOnly.lintSource "f.php" selfRead).toOption = some []
    ∧ ∃ file, SourceFile.ofSource "f.php" selfRead = .ok file
      ∧ let ctx := errorsOnly.context file
        ctx.StepAt 3 11 9 ∧ ctx.file.Assigns 9
        ∧ (ctx.arrive 9 (ctx.stateAt 11)).scopes.modeAt 0 = .strict
        ∧ ¬ ctx.isKnown (ctx.arrive 9 (ctx.stateAt 11)) 0 "$x"
        ∧ ctx.StepAt 7 25 13 ∧ ctx.file.Reads 13 ∧ ctx.file.token 13 = ⟨.var, "$x", 1, 13⟩
        ∧ ctx.file.statementEnd 9 = 18 := by
  obtain ⟨file, hfile, hlint, hstep⟩ := selfRead_run
  exact ⟨by rfl, hlint, file, hfile, hstep⟩

end Linter

end Unassigned
