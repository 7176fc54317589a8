import Unassigned.Proofs.Formatting.Loop

/-!
# `Proofs.Formatting.Statement` — functions, variables and statements in different layouts

One lemma for each handler of a function, of a variable and of a statement: its plan in a file is its plan
in the code, in the layout.
-/

namespace Unassigned

namespace TokenStream

variable {f : TokenStream}

/-- The recursion through the items of a `global` statement, unfolded once. -/
theorem handleGlobalItems_eq (keyword i : Nat) : f.handleGlobalItems keyword i
    = (match f.globalVariable? i with
      | none => .fail (.badGlobal (f.token (if f.isChar i '$' then (f.next? i).getD i else i)))
      | some holder => do
        .emitAll (f.globalItem i holder)
        match f.next? holder with
        | none => .fail (.badGlobal (f.token keyword))
        | some after =>
          if f.isChar after ',' then
            match f.next? after with
            | none => .fail (.badGlobal (f.token keyword))
            | some next => f.handleGlobalItems keyword next
          else if f.isChar after ';' || f.kind after == .closeTag then pure after
          else .fail (.badGlobal (f.token after))) := by
  rw [TokenStream.handleGlobalItems]
  cases hholder : f.globalVariable? i with
  | none => rfl
  | some holder =>
      simp only []
      cases hafter : f.next? holder with
      | none => rfl
      | some after =>
          dsimp only
          cases hnext : f.next? after <;> rfl

end TokenStream

namespace Layout.Formats

variable {l : Layout} {c f : TokenStream} (h : l.Formats c f)

include h

/-! ## Functions -/

theorem functionStop? (close : Nat) :
    f.functionStop? (l.place close) = (c.functionStop? close).map l.place := by
  unfold TokenStream.functionStop?
  rw [h.next?]
  cases c.next? close with
  | none => rfl
  | some n =>
      simp only [Option.map_some, h.isChar, h.afterReturnType?]
      split <;> rfl

/-- The body of an arrow function starts at the same token. -/
theorem arrowStop? (close : Nat) : f.arrowStop? (l.place close) = (c.arrowStop? close).map l.place := by
  unfold TokenStream.arrowStop?
  rw [h.search? (fun j => h.isCharOf j ['(', '\x7b']) (fun j => by rw [h.kind, h.isChar]), Option.filter_map]
  simp only [Function.comp_def, h.kind]

theorem declareParameters (paren : Nat) :
    f.declareParameters (l.place paren) = (c.declareParameters paren).layOut l id := by
  unfold TokenStream.declareParameters
  rw [h.arguments]
  refine Plan.layOut_forM (fun first => ?_) _
  rw [h.parameterAt, h.token]
  dsimp only [Parameter.layOut]
  cases (c.parameterAt first).varIndex with
  | none => rfl
  | some i =>
      simp only [Option.map_some, h.token]
      rfl

/-- A missing capture is blamed on the same token. -/
theorem captureVariable (paren first : Nat) :
    f.captureVariable (l.place paren) (l.place first) = (c.captureVariable paren first).layOut l id := by
  unfold TokenStream.captureVariable
  rw [h.isChar, h.withoutAmpersand, h.token]
  dsimp only
  cases c.withoutAmpersand first with
  | none => rfl
  | some i =>
      simp only [Option.map_some, h.kind, h.token]
      split
      · cases c.isChar first '&' <;> rfl
      · rfl

theorem captureVariables (paren : Nat) :
    f.captureVariables (l.place paren) = (c.captureVariables paren).layOut l id := by
  unfold TokenStream.captureVariables
  rw [h.arguments]
  exact Plan.layOut_forM (h.captureVariable paren) _

theorem useKeyword? (keyword close : Nat) :
    f.useKeyword? (l.place keyword) (l.place close) = (c.useKeyword? keyword close).map l.place := by
  unfold TokenStream.useKeyword?
  rw [h.functionName?, Option.isSome_map, h.next?, Option.filter_map]
  simp only [Function.comp_def, h.kind]
  split <;> rfl

/-- A function without `use` has no captures in any layout. -/
theorem handleCaptures (keyword close : Nat) :
    f.handleCaptures (l.place keyword) (l.place close)
      = (c.handleCaptures keyword close).layOut l l.place := by
  unfold TokenStream.handleCaptures
  rw [h.useKeyword?]
  cases c.useKeyword? keyword close with
  | none => rfl
  | some i =>
      simp only [Option.map_some, h.next?]
      rw [h.expect]
      refine Plan.layOut_bind _ fun paren => ?_
      rw [h.captureVariables, h.skipGroup]
      exact Plan.layOut_bind _ fun _ => rfl

theorem handleBody (keyword : Nat) (place : Option Nat) :
    f.handleBody (l.place keyword) (place.map l.place) = (c.handleBody keyword place).layOut l l.place := by
  unfold TokenStream.handleBody
  rw [h.token]
  cases place with
  | none => rfl
  | some stop =>
      simp only [Option.map_some, h.isChar, h.skipGroup, h.token]
      split
      · rfl
      · split <;> rfl

/-- The handler of a function is made of those of its parts. -/
theorem handleFunction (i : Nat) :
    f.handleFunction (l.place i) = (c.handleFunction i).layOut l l.place := by
  unfold TokenStream.handleFunction
  rw [h.prevIs, h.functionParen?, h.expect]
  split
  · rfl
  · refine Plan.layOut_bind (g := id) (.emit .openFunction) fun _ => ?_
    refine Plan.layOut_bind _ fun paren => ?_
    rw [h.declareParameters]
    refine Plan.layOut_bind _ fun _ => ?_
    rw [h.skipGroup, h.handleCaptures]
    refine Plan.layOut_bind _ fun close => ?_
    rw [h.functionStop?, h.handleBody]

/-- The scope of an arrow function ends at the same token. -/
theorem handleArrowFunction (i : Nat) :
    f.handleArrowFunction (l.place i) = (c.handleArrowFunction i).layOut l l.place := by
  unfold TokenStream.handleArrowFunction
  rw [h.afterFunctionKeyword?, h.expect]
  refine Plan.layOut_bind _ fun paren => ?_
  rw [h.skipGroup, h.arrowStop?, h.token]
  cases c.arrowStop? (c.skipGroup paren) with
  | none => rfl
  | some stop =>
      simp only [Option.map_some, h.expressionEnd, h.declareParameters]
      refine Plan.layOut_bind (g := id) (.emit (.openArrow (c.expressionEnd stop))) fun _ => ?_
      exact Plan.layOut_bind _ fun _ => rfl

/-! ## Variables -/

theorem globalVariable? (i : Nat) :
    f.globalVariable? (l.place i) = (c.globalVariable? i).map l.place := by
  unfold TokenStream.globalVariable?
  rw [h.kind, h.isChar, h.next?, Option.filter_map]
  simp only [Function.comp_def, h.kind]
  split
  · rfl
  · split <;> rfl

/-- The variable that an `isset` asks for. -/
theorem issetVariable? (i : Nat) : f.issetVariable? (l.place i) = (c.issetVariable? i).map l.place := by
  unfold TokenStream.issetVariable?
  simp only [Option.bind_eq_bind, h.next?, Option.bind_map, Option.map_bind, Function.comp_def, h.kind, h.isChar,
    h.nextIs, apply_ite (Option.map l.place), Option.map_some, Option.map_none]

/-- What stands around a variable is found by significant neighbours only. -/
theorem handleOccurrence (i : Nat) :
    f.handleOccurrence (l.place i) = (c.handleOccurrence i).layOut l := by
  have hkind : (fun j => f.kind (l.place j)) = c.kind := funext h.kind
  unfold TokenStream.handleOccurrence
  simp only [h.token, h.afterIndexes, Option.map_map, Function.comp_def, hkind, h.prevAny]
  split
  · split <;> rfl
  · split
    · rfl
    · split
      · rfl
      · split <;> rfl

/-- Annotations hold to the end of the same statement. -/
theorem handleDocComment (i : Nat) :
    f.handleDocComment (l.place i) = (c.handleDocComment i).map (Command.layOut l) := by
  unfold TokenStream.handleDocComment
  rw [h.text, h.statementEnd]
  dsimp only
  split <;> rfl

theorem handleStringVarName (i : Nat) :
    f.handleStringVarName (l.place i) = (c.handleStringVarName i).layOut l := by
  unfold TokenStream.handleStringVarName
  rw [h.token]
  rfl

theorem handleDollar (i : Nat) :
    f.handleDollar (l.place i) = (c.handleDollar i).map (Command.layOut l) := by
  unfold TokenStream.handleDollar
  rw [h.next?]
  cases c.next? i with
  | none => rfl
  | some n =>
      simp only [Option.map_some, h.kind, h.isChar, h.skipGroup, h.afterIndexes, Option.any_map, h.token,
        h.statementEnd]
      split
      · split <;> rfl
      · rfl

/-! ## Statements -/

theorem handleInclude (i : Nat) :
    f.handleInclude (l.place i) = (c.handleInclude i).map (Command.layOut l) := by
  unfold TokenStream.handleInclude
  rw [h.statementEnd?, h.token]
  cases c.statementEnd? i <;> rfl

theorem evalCode? (i : Nat) : f.evalCode? (l.place i) = (c.evalCode? i).map l.place := by
  unfold TokenStream.evalCode?
  rw [h.next?]
  cases c.next? i with
  | none => rfl
  | some n =>
      simp only [Option.map_some, h.isChar, h.next?]
      split <;> rfl

/-- The variables in an evaluated text have its place. -/
theorem evalVariables (i : Nat) :
    f.evalVariables (l.place i) = (c.evalVariables i).map (Token.layOut l) := by
  unfold TokenStream.evalVariables
  rw [h.kind, h.text, h.token]
  split
  · rw [List.map_map]
    rfl
  · rfl

theorem handleEval (i : Nat) : f.handleEval (l.place i) = (c.handleEval i).map (Command.layOut l) := by
  unfold TokenStream.handleEval
  rw [h.token, h.statementEnd, h.evalCode?]
  cases c.evalCode? i with
  | none => rfl
  | some code =>
      simp only [Option.map_some, Option.getD_some, h.evalVariables, List.map_cons, List.map_map]
      rfl

theorem handleCaught (keyword : Nat) (place : Option Nat) :
    f.handleCaught (l.place keyword) (place.map l.place)
      = (c.handleCaught keyword place).layOut l l.place := by
  unfold TokenStream.handleCaught
  cases place with
  | none => exact h.expect none ')' .catchClause keyword
  | some after =>
      simp only [Option.map_some, h.kind, h.token, h.next?]
      split
      · refine Plan.layOut_bind (g := id) (.emit (.assign (c.token after) .caught)) fun _ => ?_
        exact h.expect (c.next? after) ')' .catchClause keyword
      · exact h.expect (some after) ')' .catchClause keyword

/-- A `catch` without types is blamed on the same token. -/
theorem handleCatch (i : Nat) : f.handleCatch (l.place i) = (c.handleCatch i).layOut l l.place := by
  unfold TokenStream.handleCatch
  rw [h.next?, h.expect]
  refine Plan.layOut_bind _ fun paren => ?_
  rw [h.next?, h.token]
  cases c.next? paren with
  | none => rfl
  | some first =>
      simp only [Option.map_some, h.kind, h.skipKinds, h.handleCaught, h.token]
      split <;> rfl

theorem globalItem (i holder : Nat) :
    f.globalItem (l.place i) (l.place holder) = (c.globalItem i holder).map (Command.layOut l) := by
  unfold TokenStream.globalItem
  rw [h.token, h.kind, h.statementEnd]
  dsimp only
  split <;> rfl

/-- By recursion on the items, each of which starts behind the one before. -/
theorem handleGlobalItems (keyword i : Nat) :
    f.handleGlobalItems (l.place keyword) (l.place i)
      = (c.handleGlobalItems keyword i).layOut l l.place := by
  rw [TokenStream.handleGlobalItems_eq, TokenStream.handleGlobalItems_eq, h.globalVariable?]
  cases hholder : c.globalVariable? i with
  | none =>
      have hblamed : (if f.isChar (l.place i) '$' then (f.next? (l.place i)).getD (l.place i) else l.place i)
          = l.place (if c.isChar i '$' then (c.next? i).getD i else i) := by
        rw [h.isChar, h.next?, Option.getD_map]
        split <;> rfl
      simp only [Option.map_none, hblamed, h.token]
      rfl
  | some holder =>
      simp only [Option.map_some, h.token, h.next?]
      refine Plan.layOut_emitAll_bind (h.globalItem i holder) ?_
      cases hafter : c.next? holder with
      | none => rfl
      | some after =>
          simp only [Option.map_some, h.isChar, h.kind, h.next?, h.token]
          split
          · cases hnext : c.next? after with
            | none => rfl
            | some next => exact handleGlobalItems keyword next
          · split <;> rfl
termination_by c.size - i
decreasing_by
  have := c.next?_bounds hafter
  have := c.next?_bounds hnext
  have := c.le_of_globalVariable? hholder
  omega

theorem handleGlobal (i : Nat) : f.handleGlobal (l.place i) = (c.handleGlobal i).layOut l l.place := by
  unfold TokenStream.handleGlobal
  rw [h.next?, h.token]
  cases c.next? i with
  | none => rfl
  | some first => exact h.handleGlobalItems i first

theorem handleIsset (i : Nat) : f.handleIsset (l.place i) = (c.handleIsset i).map (Command.layOut l) := by
  unfold TokenStream.handleIsset
  rw [h.issetVariable?]
  cases c.issetVariable? i with
  | none => rfl
  | some j =>
      simp only [Option.map_some, h.token]
      rfl

end Layout.Formats

end Unassigned
