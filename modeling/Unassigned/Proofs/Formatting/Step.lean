import Unassigned.Proofs.Formatting.Statement

/-!
# `Proofs.Formatting.Step` — one step in different layouts

The handlers that look at classes, functions or signatures, and from all handlers together
`FormatsContext.dispatch`: **a step of a scan does the same in every layout.**
-/

namespace Unassigned

/-! ## Handlers that look at declarations -/

namespace Layout.FormatsFile

variable {l : Layout} {c f : SourceFile} (h : l.FormatsFile c f)

include h

theorem isLoopAssignment (loop i : Nat) :
    f.isLoopAssignment (l.place loop) (l.place i) = c.isLoopAssignment loop i := by
  have hsame : (f.functionAt? (l.place i) == f.functionAt? (l.place loop))
      = (c.functionAt? i == c.functionAt? loop) := by
    rw [h.functionAt?, h.functionAt?, Bool.eq_iff_iff, beq_iff_eq, beq_iff_eq]
    exact (Option.map_injective fun _ _ heq => h.functionDecl_inj.mp heq).eq_iff
  unfold SourceFile.isLoopAssignment
  rw [hsame, h.kind, h.inClassBody, h.prevAny, h.nextIs, h.isForeachTarget]

theorem predeclare (loop last : Nat) :
    f.predeclare (l.place loop) (l.place last) = (c.predeclare loop last).map (Command.layOut l) := by
  unfold SourceFile.predeclare
  have hplaces := h.filter_places (pairwise_placesBetween (l.place loop) (l.place last))
    (pairwise_placesBetween loop last)
    (fun k => by rw [mem_placesBetween, mem_placesBetween, h.le_iff, h.le_iff])
    (h.isLoopAssignment loop) ?_
  · rw [hplaces, List.map_map, List.map_map]
    congr 1
    funext i
    rw [Function.comp_apply, h.token]
    rfl
  · intro i hi
    have hvar : f.kind i = .var := by
      unfold SourceFile.isLoopAssignment at hi
      simp only [Bool.and_eq_true] at hi
      simpa using hi.1.1.1.1
    show (f.kind i).isTrivial = false
    rw [hvar]
    rfl

theorem handleLoop (i : Nat) : f.handleLoop (l.place i) = (c.handleLoop i).layOut l id := by
  unfold SourceFile.handleLoop
  refine Plan.layOut_emitAll_bind ?_ ?_
  · rw [h.loopEnd?]
    cases c.loopEnd? i with
    | none => rfl
    | some last => exact h.predeclare i last
  · rw [h.kind, h.bindForeach]
    split <;> rfl

theorem handleVariable (i : Nat) :
    f.handleVariable (l.place i) = (c.handleVariable i).map (Command.layOut l) := by
  unfold SourceFile.handleVariable
  rw [h.inClassBody, h.prevIs, h.token, h.prevAny, h.handleOccurrence]
  split
  · rfl
  · dsimp only
    split <;> rfl

theorem handleStatic (i : Nat) : f.handleStatic (l.place i) = (c.handleStatic i).layOut l id := by
  unfold SourceFile.handleStatic
  rw [h.functionAt?, Option.isNone_map, h.inClassBody, h.next?]
  split
  · rfl
  · cases c.next? i with
    | none => rfl
    | some first =>
        simp only [Option.map_some, h.kind, h.prevIs, h.elements]
        split
        · rfl
        · refine Plan.layOut_forM (fun j => ?_) _
          rw [h.kind, h.token]
          split <;> rfl

theorem handleKeyword (word : Keyword) (i : Nat) :
    f.handleKeyword word (l.place i) = (c.handleKeyword word i).layOut l l.place := by
  unfold SourceFile.handleKeyword
  split
  iterate 4
    rw [h.handleInclude]
    rfl
  · rw [h.handleEval]
    rfl
  iterate 4
    rw [h.handleLoop]
    exact Plan.layOut_bind _ fun _ => rfl
  · exact h.handleFunction i
  · exact h.handleArrowFunction i
  · exact h.handleCatch i
  · rw [h.handleList]
    exact Plan.layOut_bind _ fun _ => rfl
  · exact h.handleGlobal i
  · rw [h.handleStatic]
    exact Plan.layOut_bind _ fun _ => rfl
  iterate 2
    rw [h.handleIsset]
    rfl
  · rfl

end Layout.FormatsFile

/-! ## The step at a token -/

/-- The scan that `f` describes is that of `c`, of a file in the layout `l`. -/
structure Layout.FormatsContext (l : Layout) (c f : ScanContext) : Prop where
  file : l.FormatsFile c.file f.file
  signatures : f.signatures = c.signatures
  level : f.level = c.level
  checkFileScope : f.checkFileScope = c.checkFileScope
  knownGlobals : f.knownGlobals = c.knownGlobals

namespace Layout.FormatsContext

variable {l : Layout} {c f : ScanContext} (h : l.FormatsContext c f)

include h

theorem handleCall (types : List (String × String)) (i paren : Nat) :
    f.handleCall types (l.place i) (l.place paren) = (c.handleCall types i paren).layOut l id := by
  have hunknown : ∀ firsts : List Nat, (firsts.map l.place).flatMap f.file.passToUnknown
      = (firsts.flatMap c.file.passToUnknown).map (Command.layOut l) := by
    intro firsts
    rw [List.flatMap_map, List.map_flatMap]
    simp only [h.file.passToUnknown]
  unfold ScanContext.handleCall ScanContext.callSignature?
  dsimp only
  rw [h.signatures, h.file.callNames, h.file.positionalArguments, h.file.namedArguments]
  cases c.signatures.lookup? (c.file.callNames types i) with
  | none =>
      dsimp only
      rw [← List.map_append, hunknown]
      rfl
  | some signature =>
      dsimp only
      split
      · rfl
      · exact Plan.layOut_emitAll_bind (hunknown _) (h.file.passReferences signature _ signature.refs)

theorem handleName (types : List (String × String)) (i : Nat) :
    f.handleName types (l.place i) = (c.handleName types i).layOut l id := by
  unfold ScanContext.handleName
  dsimp only
  rw [h.file.next?]
  cases c.file.next? i with
  | none => rfl
  | some paren =>
      simp only [Option.map_some, h.file.isChar, h.file.prevIs, h.file.prevAny, h.file.text, h.file.token,
        h.file.statementEnd]
      split
      · rfl
      · refine Plan.layOut_emitAll_bind ?_ (h.handleCall types i paren)
        split <;> rfl

/-- **What is to be done about a token does not depend on the layout.** -/
theorem dispatch (types : List (String × String)) (i : Nat) :
    f.dispatch types (l.place i) = (c.dispatch types i).layOut l l.place := by
  unfold ScanContext.dispatch
  dsimp only
  rw [h.file.kind]
  cases c.file.kind i with
  | docComment =>
      simp only [h.file.handleDocComment]
      rfl
  | var =>
      simp only [h.file.handleVariable]
      rfl
  | name =>
      simp only [h.handleName]
      exact Plan.layOut_bind _ fun _ => rfl
  | char x =>
      simp only [h.file.handleDollar, h.file.handleBracket]
      split
      · rfl
      · split <;> rfl
  | stringVarName =>
      simp only [h.file.handleStringVarName]
      rfl
  | keyword word => exact h.file.handleKeyword word i
  | _ => rfl

end Layout.FormatsContext

end Unassigned
