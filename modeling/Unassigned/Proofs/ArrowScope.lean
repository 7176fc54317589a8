import Unassigned.Proofs.Discipline
import Unassigned.Proofs.Knowledge

/-!
# `Proofs.ArrowScope` — what an arrow function sees of the scope around it

An arrow function opens a scope of its own, in the mode of the scope around it. The names of that scope are bound in
the new one, and then the parameters are. A name is known for one of three reasons, though: it is bound in the
scope, it is a superglobal, or it is set beforehand **in the file scope**. The third does not come with the names: the
scope of an arrow function is never the file scope. So an arrow function knows all that the scope around it knows, but
for the globals that are set beforehand and that nobody has bound (`StepAt.arrowScope_knows`).
-/

namespace Unassigned

open Plan

/-! ## Names -/

theorem Frame.mem_names_bind_iff {frame : Frame} {v : Variable} {name : String} :
    name ∈ (frame.bind v).names ↔ name ∈ frame.names ∨ name = v.name := by
  rw [bind, names_insert]
  split
  · next hmem =>
      constructor
      · exact .inl
      · rintro (h | rfl)
        · exact h
        · exact hmem
  · rw [List.mem_append, List.mem_singleton]

theorem Frame.names_inner (frame : Frame) (endIndex : Int) : (frame.inner endIndex).names = frame.names := by
  simp [names, inner, Ordered.keys]

namespace TokenStream

variable {f : TokenStream}

/-- The variables of the parameters in the list that opens at a place. -/
def parameterVariables (f : TokenStream) (paren : Nat) : List Nat :=
  (f.arguments paren).filterMap fun first => (f.parameterAt first).varIndex

/-- The commands for the parameters bind their variables, in order. -/
theorem declareParameters_binds {paren : Nat} (h : (f.declareParameters paren).result = .ok ()) :
    (f.declareParameters paren).commands.filterMap Command.bound? = (f.parameterVariables paren).map f.token := by
  unfold declareParameters parameterVariables at *
  generalize f.arguments paren = firsts at h ⊢
  induction firsts with
  | nil => rfl
  | cons first rest ih =>
      obtain ⟨_, hfirst, hrest⟩ := result_bind_eq_ok.mp h
      rw [List.forM, bind_of_ok hfirst]
      cases hvar : (f.parameterAt first).varIndex with
      | none => simp [hvar] at hfirst
      | some i =>
          rw [List.filterMap_append, ih hrest]
          simp [hvar, Command.bound?]

end TokenStream

/-! ## One step -/

namespace ScanContext

variable {ctx : ScanContext}
variable {below : List Frame}

/-- Parameters are bound in the innermost scope, and nothing else happens to the scopes. -/
theorem frames_parameters {cs : List Command} (hcs : ∀ c ∈ cs, c.isParameter) {st : ScanState} {top : Frame}
    (hframes : st.scopes.frames = top :: below) :
    ∃ scope, (ctx.execute cs st).scopes.frames = scope :: below ∧ scope.mode = top.mode
      ∧ ∀ name, name ∈ scope.names ↔ name ∈ top.names ∨ name ∈ (cs.filterMap Command.bound?).map Token.text := by
  induction cs generalizing st top with
  | nil => exact ⟨top, hframes, rfl, fun name => by simp⟩
  | cons c cs ih =>
      cases c with
      | bindParameter token isRef =>
          let v : Variable := { token, status := .assigned, isRefParam := isRef }
          have hbound : (ctx.perform (.bindParameter token isRef) st).scopes.frames = top.bind v :: below := by
            show st.scopes.frames.modifyHead _ = _
            rw [hframes]
            rfl
          obtain ⟨scope, hscope, hmode, hnames⟩ := ih (fun d hd => hcs d (List.mem_cons_of_mem _ hd)) hbound
          refine ⟨scope, hscope, hmode, fun name => ?_⟩
          rw [hnames name, Frame.mem_names_bind_iff, or_assoc, ← List.mem_cons]
          rfl
      | _ => cases hcs _ List.mem_cons_self

/-- The scope of an arrow function lies on top of the scopes around it, as they are. -/
theorem frames_arrow {endIndex : Nat} {st : ScanState} {outer : Frame} (hframes : st.scopes.frames = outer :: below) :
    (ctx.perform (.openArrow endIndex) st).scopes.frames = outer.inner endIndex :: outer :: below := by
  have houter : st.scopes.frame? 0 = some outer := by
    rw [ScopeStack.frame?, hframes]
    rfl
  simp [perform, ScanState.onScopes, houter, ScopeStack.push, hframes]

theorem declares_of_frames {stack : ScopeStack} {top : Frame} (h : stack.frames = top :: below) (name : String) :
    stack.declares 0 name ↔ name ∈ top.names := by
  rw [ScopeStack.declares, ScopeStack.frame?, h]
  exact Frame.declares_iff top name

/-- **What an arrow function knows.** For the scan of any file with any settings: a step at an `fn` that succeeds puts
    one scope on top of the others, in the mode of the scope around it. The new scope knows the superglobals, the names
    of the scope around it and its parameters. Of what is known around it, it lacks exactly the globals that are set
    beforehand, where the scope around it is that of the file and has not bound them. -/
theorem StepAt.arrowScope_knows {t n i last : Nat} (h : ctx.StepAt t n i) (hfn : ctx.file.kind i = .keyword .fnWord)
    (hlast : (ctx.plan i (ctx.stateAt n)).result = .ok last) :
    let outside := ctx.arrive i (ctx.stateAt n)
    let inside := ctx.after i (ctx.stateAt n)
    ∃ paren scope, ctx.file.afterFunctionKeyword? i = some paren
      ∧ inside.scopes.frames = scope :: outside.scopes.frames ∧ scope.mode = outside.scopes.modeAt 0
      -- what is known inside
      ∧ (∀ name, ctx.isKnown inside 0 name ↔ name ∈ superglobals ∨ outside.scopes.declares 0 name
          ∨ name ∈ (ctx.file.parameterVariables paren).map ctx.file.text)
      -- and what of the outside is not
      ∧ ∀ name, ctx.isKnown outside 0 name → (¬ ctx.isKnown inside 0 name ↔ outside.scopes.depth = 1
          ∧ name ∈ ctx.knownGlobals ∧ name ∉ superglobals ∧ ¬ outside.scopes.declares 0 name
          ∧ name ∉ (ctx.file.parameterVariables paren).map ctx.file.text) := by
  intro outside inside
  rw [ctx.result_plan, ctx.dispatch_of_keyword hfn] at hlast
  obtain ⟨paren, endIndex, hparen, hparams, hcommands, _⟩ := ctx.file.commands_of_handleArrowFunction hlast
  have hbound := TokenStream.declareParameters_binds hparams
  obtain ⟨outer, below, hframes⟩ := List.exists_cons_of_length_pos (ctx.depth_arrive i h.depth_pos)
  have hopen : (ctx.perform (.openArrow endIndex) (ctx.arrive i (ctx.stateAt n))).scopes.frames
      = outer.inner endIndex :: outer :: below := frames_arrow hframes
  obtain ⟨scope, hscope, hmode, hnames⟩ := frames_parameters (ctx.file.declareParameters_keeps paren).all hopen
  have hinside : inside.scopes.frames = scope :: outer :: below := by
    show (ctx.after i (ctx.stateAt n)).scopes.frames = _
    rw [ctx.after_eq, ctx.dispatch_of_keyword hfn]
    show (ctx.execute (ctx.file.handleArrowFunction i).commands _).scopes.frames = _
    rw [hcommands, execute_cons]
    exact hscope
  have hknown : ∀ name, ctx.isKnown inside 0 name ↔ name ∈ superglobals ∨ outside.scopes.declares 0 name
      ∨ name ∈ (ctx.file.parameterVariables paren).map ctx.file.text := by
    intro name
    -- with another scope below it, the scope is not that of the file
    have hpre : ctx.isPredefined inside 0 name ↔ name ∈ superglobals := by
      simp [isPredefined, ScopeStack.depth, hinside]
    rw [isKnown, Bool.or_eq_true_iff, hpre, declares_of_frames hinside, declares_of_frames hframes, hnames, hbound,
      List.map_map, Frame.names_inner]
    rfl
  refine ⟨paren, scope, hparen, by rw [hinside, hframes], ?_, hknown, ?_⟩
  · rw [hmode, ScopeStack.modeAt, ScopeStack.frame?, hframes]
    rfl
  · intro name houtside
    rw [hknown, not_or, not_or]
    constructor
    · rintro ⟨hsuper, hdeclared, hparameter⟩
      have hglobal : outside.scopes.depth = 1 ∧ name ∈ ctx.knownGlobals := by
        simpa [isKnown, isPredefined, hsuper, hdeclared] using houtside
      exact ⟨hglobal.1, hglobal.2, hsuper, hdeclared, hparameter⟩
    · rintro ⟨_, _, hsuper, hdeclared, hparameter⟩
      exact ⟨hsuper, hdeclared, hparameter⟩

end ScanContext

namespace Linter

/-- A linter that reports errors and warnings. -/
def warnings : Linter :=
  ⟨.warning, true, defaultGlobals, []⟩

/-- An arrow function in an arrow function in a function. -/
def nestedArrows : String :=
  "<?php function f($a) \x7b return fn($b) => fn(&...$c) => $a + $b; \x7d"

theorem nestedArrows_run : ∃ file, SourceFile.ofSource "f.php" nestedArrows = .ok file
    ∧ let ctx := warnings.context file
      ctx.StepAt 7 26 19 ∧ file.kind 19 = .keyword .fnWord
      ∧ (ctx.plan 19 (ctx.stateAt 26)).result.toOption.any (· == 26)
      ∧ (ctx.arrive 19 (ctx.stateAt 26)).scopes.depth = 3 ∧ ctx.isKnown (ctx.arrive 19 (ctx.stateAt 26)) 0 "$a"
      ∧ ctx.isKnown (ctx.arrive 19 (ctx.stateAt 26)) 0 "$b" :=
  exists_ok_of_decide (by decide +kernel)

/-- The inner arrow function knows what the outer one knows: the parameters of both functions around it. -/
theorem nestedArrows_know : ∃ file, SourceFile.ofSource "f.php" nestedArrows = .ok file
    ∧ let ctx := warnings.context file
      ctx.StepAt 7 26 19 ∧ file.kind 19 = .keyword .fnWord
      ∧ ctx.isKnown (ctx.after 19 (ctx.stateAt 26)) 0 "$a" ∧ ctx.isKnown (ctx.after 19 (ctx.stateAt 26)) 0 "$b"
      ∧ ∀ name, ctx.isKnown (ctx.arrive 19 (ctx.stateAt 26)) 0 name →
        ctx.isKnown (ctx.after 19 (ctx.stateAt 26)) 0 name := by
  obtain ⟨file, hfile, hstep, hfn, hlast, hdepth, hfirst, hsecond⟩ := nestedArrows_run
  obtain ⟨last, hlast, _⟩ := exists_ok_of_any hlast
  obtain ⟨_, _, _, _, _, _, hlost⟩ := ScanContext.StepAt.arrowScope_knows hstep hfn hlast
  refine ⟨file, hfile, ?_⟩
  intro ctx
  have hall : ∀ name, ctx.isKnown (ctx.arrive 19 (ctx.stateAt 26)) 0 name →
      ctx.isKnown (ctx.after 19 (ctx.stateAt 26)) 0 name := by
    intro name hname
    by_contra hnot
    -- a name is lost in the file scope only, and this is two scopes further in
    have hone := ((hlost name hname).mp hnot).1
    omega
  exact ⟨hstep, hfn, hall _ hfirst, hall _ hsecond, hall⟩

/-- An arrow function in the file scope that reads a global which is set beforehand. -/
def capturedArguments : String :=
  "<?php $f = fn() => $argv;"

theorem capturedArguments_run : ∃ file, SourceFile.ofSource "f.php" capturedArguments = .ok file
    ∧ let ctx := warnings.context file
      (warnings.lintSource "f.php" capturedArguments).toOption
        = some [⟨⟨.var, "$argv", 1, 11⟩, .warning, .possiblyUndefined⟩]
      ∧ ctx.StepAt 5 17 5 ∧ file.kind 5 = .keyword .fnWord ∧ (ctx.plan 5 (ctx.stateAt 17)).result.isOk
      ∧ ctx.isKnown (ctx.arrive 5 (ctx.stateAt 17)) 0 "$argv"
      ∧ ¬ ctx.isKnown (ctx.after 5 (ctx.stateAt 17)) 0 "$argv" :=
  exists_ok_of_decide (by decide +kernel)

/-- The global is known around the arrow function, but not in it, and the read is reported. -/
theorem capturedArguments_reported : ofSettings { level := "warning" } [] = .ok warnings
    ∧ (warnings.lintSource "f.php" capturedArguments).toOption
      = some [⟨⟨.var, "$argv", 1, 11⟩, .warning, .possiblyUndefined⟩]
    ∧ ∃ file, SourceFile.ofSource "f.php" capturedArguments = .ok file
      ∧ let ctx := warnings.context file
        ctx.StepAt 5 17 5 ∧ file.kind 5 = .keyword .fnWord ∧ (ctx.plan 5 (ctx.stateAt 17)).result.isOk
        ∧ ctx.isKnown (ctx.arrive 5 (ctx.stateAt 17)) 0 "$argv"
        ∧ ¬ ctx.isKnown (ctx.after 5 (ctx.stateAt 17)) 0 "$argv" := by
  obtain ⟨file, hfile, hlint, hstep⟩ := capturedArguments_run
  exact ⟨by rfl, hlint, file, hfile, hstep⟩

end Linter

end Unassigned
