import Unassigned.Proofs.Formatting.Declarations
import Unassigned.Scan.Step

/-!
# `Proofs.Formatting.Plan` — plans and calls in different layouts

A handler looks at the tokens around a construct and says what is to be done. What it says about a construct
of a file is what it says about the construct in the code alone, put in its places: the same commands on the
same tokens, the same result or the same error. `Plan.layOut` is a plan in a layout, and the plans of calls
are the first that are compared.
-/

namespace Unassigned

/-! ## Commands and plans in a layout -/

/-- A command about tokens of the code, in a layout. -/
def Command.layOut (l : Layout) : Command → Command
  | .applySwitch i => .applySwitch (l.place i)
  | .dropFinished i => .dropFinished (l.place i)
  | .forgetAnnotations i => .forgetAnnotations (l.place i)
  | .annotate declared stop => .annotate declared (l.place stop)
  | .applyDocComment t => .applyDocComment (t.layOut l)
  | .read t => .read (t.layOut l)
  | .readLeniently t => .readLeniently (t.layOut l)
  | .check t => .check (t.layOut l)
  | .assign t role => .assign (t.layOut l) role
  | .autovivify t finding => .autovivify (t.layOut l) finding
  | .coalesce t => .coalesce (t.layOut l)
  | .update t finding isAlone => .update (t.layOut l) finding isAlone
  | .standAlone t => .standAlone (t.layOut l)
  | .declare t => .declare (t.layOut l)
  | .test t => .test (t.layOut l)
  | .consume i => .consume (l.place i)
  | .schedule t stop => .schedule (t.layOut l) (l.place stop)
  | .rejectReference t => .rejectReference (t.layOut l)
  | .openFunction => .openFunction
  | .openArrow stop => .openArrow (l.place stop)
  | .bindParameter t isRef => .bindParameter (t.layOut l) isRef
  | .checkOuter t => .checkOuter (t.layOut l)
  | .declareOuter t => .declareOuter (t.layOut l)
  | .endAt stop => .endAt (l.place stop)
  | .discard => .discard

/-- An error about tokens of the code, in a layout. -/
def AnalysisError.layOut (l : Layout) : AnalysisError → AnalysisError
  | .charExpected c construct found keyword =>
      .charExpected c construct (found.map (Token.layOut l)) (keyword.layOut l)
  | .bodyExpected found keyword => .bodyExpected (found.map (Token.layOut l)) (keyword.layOut l)
  | .asExpected t => .asExpected (t.layOut l)
  | .parameterExpected t => .parameterExpected (t.layOut l)
  | .captureExpected t => .captureExpected (t.layOut l)
  | .doubleArrowExpected t => .doubleArrowExpected (t.layOut l)
  | .exceptionTypeExpected t => .exceptionTypeExpected (t.layOut l)
  | .badGlobal t => .badGlobal (t.layOut l)
  | .badStatic t => .badStatic (t.layOut l)
  | .openScopes depth file => .openScopes depth file

/-- An error is about the same token. -/
theorem AnalysisError.token?_layOut (l : Layout) (e : AnalysisError) :
    (e.layOut l).token? = e.token?.map (Token.layOut l) := by
  cases e with
  | charExpected _ _ found _ | bodyExpected found _ => cases found <;> rfl
  | _ => rfl

theorem AnalysisError.summary_layOut (l : Layout) (e : AnalysisError) : (e.layOut l).summary = e.summary := by
  cases e with
  | charExpected _ _ found _ | bodyExpected found _ => cases found <;> rfl
  | _ => rfl

/-- Why a scan of the code stops, in a layout. -/
def ScanError.layOut (l : Layout) : ScanError → ScanError
  | .analysis e => .analysis (e.layOut l)
  | .positionOutOfRange => .positionOutOfRange

namespace Plan

variable {α β γ δ : Type} {l : Layout}

/-- A plan for the code in a layout; `g` puts what it leads to into the layout. -/
def layOut (l : Layout) (g : α → β) (plan : Plan α) : Plan β where
  commands := plan.commands.map (Command.layOut l)
  result := (plan.result.map g).mapError (ScanError.layOut l)

/-- **Plans can be laid out part by part.** -/
theorem layOut_bind {g : α → β} {g' : γ → δ} (plan : Plan α) {next : α → Plan γ} {next' : β → Plan δ}
    (hnext : ∀ a, next' (g a) = (next a).layOut l g') :
    plan.layOut l g >>= next' = (plan >>= next).layOut l g' := by
  cases hresult : plan.result with
  | ok a =>
      have hplan : (plan.layOut l g).result = .ok (g a) := by rw [layOut, hresult]; rfl
      rw [bind_of_ok hplan, bind_of_ok hresult, hnext, layOut, layOut, layOut, List.map_append]
  | error e =>
      have hplan : (plan.layOut l g).result = .error (e.layOut l) := by rw [layOut, hresult]; rfl
      rw [bind_of_error hplan, bind_of_error hresult]
      rfl

/-- The case of a first part that only gives commands. -/
theorem layOut_emitAll_bind {g : γ → δ} {commands commands' : List Command}
    (hcommands : commands' = commands.map (Command.layOut l)) {next : Unit → Plan γ} {next' : Unit → Plan δ}
    (hnext : next' () = (next ()).layOut l g) :
    emitAll commands' >>= next' = (emitAll commands >>= next).layOut l g := by
  rw [hcommands]
  exact layOut_bind (g := id) (emitAll commands) fun _ => hnext

/-- The same, for one plan after the other. -/
theorem layOut_forM {next next' : Nat → Plan Unit} (hnext : ∀ i, next' (l.place i) = (next i).layOut l id)
    (places : List Nat) :
    (places.map l.place).forM next' = (places.forM next).layOut l id := by
  induction places with
  | nil => rfl
  | cons i rest ih =>
      show next' (l.place i) >>= (fun _ => (rest.map l.place).forM next') = _
      rw [hnext]
      exact layOut_bind (next i) fun _ => ih

end Plan

theorem elementAt?_map {α β : Type} (g : α → β) (xs : List α) (position : Int) :
    elementAt? (xs.map g) position = (elementAt? xs position).map g := by
  unfold elementAt?
  rw [List.length_map]
  dsimp only
  generalize (if position < 0 then xs.length + position else position) = place
  split
  · rfl
  · exact List.getElem?_map

namespace Layout.Formats

variable {l : Layout} {c f : TokenStream} (h : l.Formats c f)

include h

/-- An expected character is missing in both layouts or in none. -/
theorem expect (place : Option Nat) (x : Char) (construct : Construct) (keyword : Nat) :
    f.expect (place.map l.place) x construct (l.place keyword)
      = (c.expect place x construct keyword).layOut l l.place := by
  unfold TokenStream.expect
  rw [h.token]
  cases place with
  | none => rfl
  | some i =>
      simp only [Option.map_some, h.isChar, h.token]
      split <;> rfl

/-! ## Calls -/

theorem namedValue? (first : Nat) :
    f.namedValue? (l.place first) = (c.namedValue? first).map (Option.map l.place) := by
  unfold TokenStream.namedValue?
  rw [h.next?]
  cases c.next? first with
  | none => rfl
  | some colon =>
      simp only [Option.map_some, h.text, h.isChar, h.next?]
      split <;> rfl

/-- The arguments of a call start at the same tokens. -/
theorem positionalArguments (paren : Nat) :
    f.positionalArguments (l.place paren) = (c.positionalArguments paren).map l.place := by
  unfold TokenStream.positionalArguments
  rw [h.arguments, List.filter_map]
  simp only [Function.comp_def, h.namedValue?, Option.isNone_map]

theorem namedArguments (paren : Nat) :
    f.namedArguments (l.place paren) = (c.namedArguments paren).map l.place := by
  unfold TokenStream.namedArguments
  rw [h.arguments, List.filterMap_map, List.map_filterMap]
  congr 1
  funext first
  rw [Function.comp_apply, h.namedValue?]
  cases c.namedValue? first <;> rfl

theorem withoutAmpersand (first : Nat) :
    f.withoutAmpersand (l.place first) = (c.withoutAmpersand first).map l.place := by
  unfold TokenStream.withoutAmpersand
  rw [h.isChar, h.next?]
  split <;> rfl

theorem isStandalone (i : Nat) : f.isStandalone (l.place i) = c.isStandalone i := by
  unfold TokenStream.isStandalone
  rw [h.next?, Option.any_map]
  simp only [h.isCharOf]

theorem isClassVariable (i : Nat) : f.isClassVariable (l.place i) = c.isClassVariable i := by
  unfold TokenStream.isClassVariable
  rw [h.skipKinds]
  cases c.skipKinds TokenStream.isClassReference i with
  | none => rfl
  | some colon => simp only [Option.map_some, h.kind, h.next?, Option.any_map]

theorem passToUnknown (first : Nat) :
    f.passToUnknown (l.place first) = (c.passToUnknown first).map (Command.layOut l) := by
  unfold TokenStream.passToUnknown
  rw [h.withoutAmpersand]
  cases c.withoutAmpersand first with
  | none => rfl
  | some i =>
      simp only [Option.map_some, h.kind, h.isStandalone, h.token]
      split <;> rfl

theorem passByReference (signature : Signature) (first : Nat) :
    f.passByReference signature (l.place first)
      = (c.passByReference signature first).map (Command.layOut l) := by
  unfold TokenStream.passByReference
  rw [h.withoutAmpersand]
  cases c.withoutAmpersand first with
  | none => rfl
  | some i =>
      simp only [Option.map_some, h.kind, h.afterIndexes, Option.any_map, h.isCharOf, h.isClassVariable,
        h.token]
      split
      · rfl
      · split
        · split
          · split
            · split <;> rfl
            · rfl
          · rfl
        · split <;> rfl

/-- Positions count arguments, so they mean the same in every layout. -/
theorem passReferences (signature : Signature) (positional : List Nat) (refs : List Int) :
    f.passReferences signature (positional.map l.place) refs
      = (c.passReferences signature positional refs).layOut l id := by
  induction refs with
  | nil => rfl
  | cons position rest ih =>
      unfold TokenStream.passReferences
      rw [List.length_map, elementAt?_map]
      split
      · rfl
      · cases elementAt? positional position with
        | none => rfl
        | some first => exact Plan.layOut_emitAll_bind (h.passByReference signature first) ih

end Layout.Formats

end Unassigned
