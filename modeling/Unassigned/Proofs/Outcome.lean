import Unassigned.Proofs.Checked
import Unassigned.Proofs.ErrorToken
import Unassigned.Proofs.LexerLoops
import Unassigned.Proofs.Positions

/-!
# `Proofs.Outcome` — how the run of a linter can end

A run ends with a list of defects, with an error of the source, with a construct that misses what belongs to it,
with a position that no argument of a call has, or because the source is nested too deep. No look-up on the way fails
(`Proofs.Checked`), and the last two ends have one cause each: **the scan reaches a call whose signature has a negative
position that reaches before the first positional argument**, or an interpolated expression is inside `maxNesting`
others (`Linter.lintSource_outcome`).
-/

namespace Unassigned

/-! ## Errors of a source -/

/-- All errors of a computation are of a sort. -/
def FailsWith {ε α : Type} (P : ε → Prop) (x : Except ε α) : Prop :=
  ∀ e, x = .error e → P e

namespace FailsWith

variable {ε α β : Type} {P : ε → Prop}

theorem ok (a : α) : FailsWith P (.ok a) := by
  intro e he
  cases he

theorem error {e : ε} (h : P e) : FailsWith P (.error e : Except ε α) := by
  intro e' he
  obtain rfl : e = e' := Except.error.inj he
  exact h

theorem bind {x : Except ε α} {next : α → Except ε β} (hx : FailsWith P x) (hnext : ∀ a, FailsWith P (next a)) :
    FailsWith P (x >>= next) := by
  cases x with
  | error e => exact error (hx e rfl)
  | ok a => exact hnext a

theorem map {x : Except ε α} (hx : FailsWith P x) (g : α → β) : FailsWith P (x.map g) := by
  cases x with
  | error e => exact error (hx e rfl)
  | ok a => exact ok (g a)

theorem mapM {act : α → Except ε β} (hact : ∀ a, FailsWith P (act a)) (xs : List α) : FailsWith P (xs.mapM act) := by
  intro e he
  obtain ⟨x, _, hx⟩ := exists_error_of_mapM he
  exact hact x e hx

end FailsWith

/-- The error is about the text of a source, not about the partner of some token or the nesting of the source. -/
def ParseError.IsOfSource : ParseError → Prop
  | .notBracket _ | .tooDeep => False
  | _ => True

theorem pairBrackets_fails (opened tokens : List Token) :
    FailsWith ParseError.IsOfSource (pairBrackets opened tokens) := by
  fun_induction pairBrackets opened tokens with
  | case1 => exact .ok _
  | case2 opener opened => exact .error trivial
  | case3 opened t rest _ _ ih => exact ih
  | case4 t rest => exact .error trivial
  | case5 t rest _ _ _ _ _ _ ih => exact ih.map _
  | case6 => exact .error trivial
  | case7 _ _ _ _ _ ih => exact ih

namespace TokenStream

variable (f : TokenStream)

theorem classAtKeyword_fails (i : Nat) : FailsWith ParseError.IsOfSource (f.classAtKeyword i) := by
  unfold classAtKeyword
  dsimp only
  split
  · exact .error trivial
  · split
    · exact .error trivial
    · exact .ok _

theorem functionAtKeyword_fails (classes : List ClassDecl) (i : Nat) :
    FailsWith ParseError.IsOfSource (f.functionAtKeyword classes i) := by
  unfold functionAtKeyword
  split
  · exact .error trivial
  · split
    · split
      · exact .error trivial
      · exact .ok _
    · exact .error trivial

end TokenStream

/-- **The partner of a token is never asked for in vain.** -/
theorem SourceFile.ofTokens_fails (name : String) (tokens : List Token) :
    FailsWith ParseError.IsOfSource (SourceFile.ofTokens name tokens) := by
  apply FailsWith.bind
  · exact (pairBrackets_fails [] tokens).bind fun pairs => .ok _
  · intro stream
    apply (FailsWith.mapM stream.classAtKeyword_fails _).bind
    intro classes
    apply (FailsWith.mapM (stream.functionAtKeyword_fails classes) _).bind
    intro functions
    exact .ok _

theorem SourceFile.ofSource_of_error {name source : String} {e : ParseError} (h : tokenize source = .error e) :
    SourceFile.ofSource name source = .error e := by
  rw [SourceFile.ofSource, h]
  rfl

/-- A source that is not parsed has an error, or is nested too deep. -/
theorem SourceFile.isOfSource_or_nestsTooDeep {name source : String} {e : ParseError}
    (h : SourceFile.ofSource name source = .error e) : e.IsOfSource ∨ (e = .tooDeep ∧ NestsTooDeep source) := by
  rcases tokenize_cases source with ⟨tokens, htokens⟩ | ⟨what, line, herror⟩ | hdeep
  · rw [SourceFile.ofSource, htokens] at h
    exact .inl (SourceFile.ofTokens_fails name tokens e h)
  · cases (SourceFile.ofSource_of_error herror).symm.trans h
    exact .inl trivial
  · cases (SourceFile.ofSource_of_error hdeep).symm.trans h
    exact .inr ⟨rfl, (tokenize_tooDeep_iff source).mp hdeep⟩

theorem SourceFile.ofSource_tooDeep_iff (name source : String) :
    SourceFile.ofSource name source = .error .tooDeep ↔ NestsTooDeep source := by
  constructor
  · intro h
    exact (SourceFile.isOfSource_or_nestsTooDeep h).elim False.elim And.right
  · intro h
    exact SourceFile.ofSource_of_error ((tokenize_tooDeep_iff source).mpr h)

/-! ## Calls that a scan reaches -/

namespace ScanContext

variable {ctx : ScanContext}

/-- A step of the scan comes to a call of a known function, whose arguments open at `paren`. -/
def ReachesCall (ctx : ScanContext) (paren : Nat) (signature : Signature) : Prop :=
  ∃ t n i, ctx.StepAt t n i ∧ ctx.CallsAt (ctx.arrive i (ctx.stateAt n)).currentTypes i paren signature

/-- The signature of a call is one of the table. -/
theorem CallsAt.find? {types : List (String × String)} {i paren : Nat} {signature : Signature}
    (h : ctx.CallsAt types i paren signature) : ∃ key, ctx.signatures.find? key = some signature := by
  obtain ⟨key, _, hkey⟩ := List.exists_of_findSome?_eq_some h.known
  exact ⟨key, hkey⟩

/-- A step runs out of positions exactly at a call one of whose positions reaches before its arguments. -/
theorem dispatch_error_iff
    (hrefs : ∀ key signature, ctx.signatures.find? key = some signature → Ascending signature.refs)
    {types : List (String × String)} {i : Nat} : (ctx.dispatch types i).result = .error .positionOutOfRange
      ↔ ∃ paren signature, ctx.CallsAt types i paren signature
          ∧ ∃ p ∈ signature.refs, ReachesBefore (ctx.file.positionalArguments paren).length p := by
  -- a call fails as the look at its by-reference arguments does
  have hcalls : ∀ {paren signature}, ctx.CallsAt types i paren signature →
      ((ctx.handleName types i).result = .error .positionOutOfRange
        ↔ ∃ p ∈ signature.refs, ReachesBefore (ctx.file.positionalArguments paren).length p) := by
    intro paren signature hcall
    obtain ⟨key, hkey⟩ := hcall.find?
    rw [hcall.result_handleName, ctx.file.passReferences_error_iff (hrefs key signature hkey)]
  constructor
  · intro h
    rcases ctx.dispatch_error h with ⟨hname, hcall⟩ | ⟨error, k, heq, _⟩
    · obtain ⟨paren, signature, hat⟩ := ctx.exists_callsAt hname hcall
      exact ⟨paren, signature, hat, (hcalls hat).mp hcall⟩
    · cases heq
  · rintro ⟨paren, signature, hat, hp⟩
    unfold dispatch
    dsimp only
    rw [hat.name, Plan.bind_of_error ((hcalls hat).mpr hp)]

theorem finish_ne_position (st : ScanState) : ctx.finish st ≠ .error .positionOutOfRange := by
  unfold finish
  dsimp only
  intro h
  split at h <;> cases h

/-- **A scan runs out of positions exactly if it reaches such a call.** -/
theorem scan_error_iff
    (hrefs : ∀ key signature, ctx.signatures.find? key = some signature → Ascending signature.refs) :
    ctx.scan = .error .positionOutOfRange ↔ ∃ paren signature, ctx.ReachesCall paren signature
      ∧ ∃ p ∈ signature.refs, ReachesBefore (ctx.file.positionalArguments paren).length p := by
  -- the end of a scan can fail too, but not for want of a position
  have hscan : ctx.scan = .error .positionOutOfRange ↔ ctx.scanFrom 0 {} = .error .positionOutOfRange := by
    unfold scan
    cases ctx.scanFrom 0 {} with
    | error e => exact Iff.rfl
    | ok st => exact ⟨fun h => absurd h (finish_ne_position st), fun h => by cases h⟩
  rw [hscan, scanFrom_error_iff]
  constructor
  · rintro ⟨t, n, i, hstep, _, h⟩
    rw [ctx.result_plan] at h
    obtain ⟨paren, signature, hat, hp⟩ := (dispatch_error_iff hrefs).mp h
    exact ⟨paren, signature, ⟨t, n, i, hstep, hat⟩, hp⟩
  · rintro ⟨paren, signature, ⟨t, n, i, hstep, hat⟩, hp⟩
    have hi : i < ctx.file.size := TokenStream.lt_size_of_kind (by simp [hat.name])
    refine ⟨t, n, i, hstep, hi, ?_⟩
    rw [ctx.result_plan]
    exact (dispatch_error_iff hrefs).mpr ⟨paren, signature, hat, hp⟩

end ScanContext

/-! ## The run -/

namespace Linter

variable {linter : Linter} {name source : String}

/-- The five ends of a run. -/
theorem lintSource_cases : (∃ defects, linter.lintSource name source = .ok defects)
    ∨ (∃ e, linter.lintSource name source = .error (.parse e) ∧ e ≠ .tooDeep ∧ ∀ t, e ≠ .notBracket t)
    ∨ (∃ e, linter.lintSource name source = .error (.scan (.analysis e)))
    ∨ linter.lintSource name source = .error (.scan .positionOutOfRange)
    ∨ linter.lintSource name source = .error (.parse .tooDeep) := by
  unfold lintSource
  cases hfile : SourceFile.ofSource name source with
  | error e =>
      rcases SourceFile.isOfSource_or_nestsTooDeep hfile with hsource | ⟨rfl, _⟩
      · refine .inr (.inl ⟨e, rfl, ?_, ?_⟩)
        · rintro rfl
          exact hsource
        · rintro t rfl
          exact hsource
      · exact .inr (.inr (.inr (.inr rfl)))
  | ok file =>
      dsimp only
      cases linter.defects file with
      | ok defects => exact .inl ⟨defects, rfl⟩
      | error e =>
          cases e with
          | analysis e => exact .inr (.inr (.inl ⟨e, rfl⟩))
          | positionOutOfRange => exact .inr (.inr (.inr (.inl rfl)))

theorem lintSource_tooDeep_iff :
    linter.lintSource name source = .error (.parse .tooDeep) ↔ NestsTooDeep source := by
  rw [← SourceFile.ofSource_tooDeep_iff name]
  unfold lintSource
  cases SourceFile.ofSource name source with
  | error e => simp
  | ok file =>
      dsimp only
      cases linter.defects file <;> simp [Except.mapError]

theorem lintSource_position_iff : linter.lintSource name source = .error (.scan .positionOutOfRange)
    ↔ ∃ file, SourceFile.ofSource name source = .ok file
        ∧ (linter.context file).scan = .error .positionOutOfRange := by
  unfold lintSource
  cases SourceFile.ofSource name source with
  | error e => simp
  | ok file =>
      unfold defects ScanContext.defects
      cases hscan : (linter.context file).scan with
      | error e => simp [hscan, Except.map, Except.mapError]
      | ok st => simp [hscan, Except.map, Except.mapError]

/-- **How a run ends.** All its look-ups succeed. It ends with defects, with an error of the source or of a
    construct in it, for want of a position, or because the source is nested too deep. For want of a position it ends
    exactly if the scan reaches a call whose signature has a negative position beyond the number of positional
    arguments, and that signature is a configured one. The last end has nothing to do with the configuration: it takes
    an interpolated expression inside `maxNesting` others. -/
theorem lintSource_outcome {settings : LintSettings} {only : List String} {linter : Linter}
    (hlinter : Linter.ofSettings settings only = .ok linter) (name source : String) :
    Checked.lint linter name source = .ok (linter.lintSource name source)
    ∧ ((∃ defects, linter.lintSource name source = .ok defects)
      ∨ (∃ e, linter.lintSource name source = .error (.parse e) ∧ e ≠ .tooDeep ∧ ∀ t, e ≠ .notBracket t)
      ∨ (∃ e, linter.lintSource name source = .error (.scan (.analysis e)))
      ∨ linter.lintSource name source = .error (.scan .positionOutOfRange)
      ∨ linter.lintSource name source = .error (.parse .tooDeep))
    ∧ (linter.lintSource name source = .error (.scan .positionOutOfRange)
      ↔ ∃ file, SourceFile.ofSource name source = .ok file ∧ ∃ paren signature,
          (linter.context file).ReachesCall paren signature
          ∧ ∃ p ∈ signature.refs, p < 0 ∧ ((file.positionalArguments paren).length : Int) < -p)
    ∧ (∀ file, SourceFile.ofSource name source = .ok file → ∀ paren signature,
        (linter.context file).ReachesCall paren signature → ∀ p ∈ signature.refs, p < 0 →
          ∃ key, linter.configured.lookup key = some signature)
    ∧ (linter.lintSource name source = .error (.parse .tooDeep) ↔ NestsTooDeep source) := by
  refine ⟨Checked.lint_eq linter name source, lintSource_cases, ?_, ?_, lintSource_tooDeep_iff⟩
  · have hscan : ∀ file, (linter.context file).scan = .error .positionOutOfRange ↔ _ := fun file =>
      ScanContext.scan_error_iff fun _ _ hfind => find?_ascending hlinter hfind
    rw [lintSource_position_iff]
    constructor
    · rintro ⟨file, hfile, h⟩
      exact ⟨file, hfile, (hscan file).mp h⟩
    · rintro ⟨file, hfile, h⟩
      exact ⟨file, hfile, (hscan file).mpr h⟩
  · rintro file _ paren signature ⟨t, n, i, _, hat⟩ p hp hneg
    obtain ⟨key, hkey⟩ := hat.find?
    exact ⟨key, configured_of_negative hkey hp hneg⟩

/-- Settings by which the last argument but one of `f` is passed by reference. -/
def lastButOne : LintSettings :=
  { initByReference := ["f, -2"] }

theorem lastButOne_run : (ofSettings lastButOne []).toOption.any fun linter =>
    linter.lintSource "f.php" "<?php f($a);" matches .error (.scan .positionOutOfRange) := by
  decide +kernel

/-- A call of `f` with one argument has no last argument but one. -/
theorem lastButOne_outcome : ∃ linter, ofSettings lastButOne [] = .ok linter
    ∧ linter.lintSource "f.php" "<?php f($a);" = .error (.scan .positionOutOfRange)
    ∧ ∃ file, SourceFile.ofSource "f.php" "<?php f($a);" = .ok file ∧ ∃ paren signature,
        (linter.context file).ReachesCall paren signature
        ∧ ∃ p ∈ signature.refs, p < 0 ∧ ((file.positionalArguments paren).length : Int) < -p := by
  obtain ⟨linter, hlinter, hrun⟩ := exists_ok_of_any lastButOne_run
  split at hrun
  · rename_i hend
    exact ⟨linter, hlinter, hend, (lintSource_outcome hlinter _ _).2.2.1.mp hend⟩
  · cases hrun

/-- A linter without any settings does not read a source whose strings are nested too deep. -/
theorem nestedSource_outcome : ∃ linter, ofSettings {} [] = .ok linter
    ∧ linter.lintSource "a.php" (nestedSource 400) = .error (.parse .tooDeep) := by
  have hdeep : NestsTooDeep (nestedSource 400) := (tokenize_tooDeep_iff _).mp (tokenize_nestedSource (by decide))
  have hany : (ofSettings {} []).toOption.any fun _ => true := by decide +kernel
  obtain ⟨linter, hlinter, _⟩ := exists_ok_of_any hany
  exact ⟨linter, hlinter, lintSource_tooDeep_iff.mpr hdeep⟩

end Linter

end Unassigned
