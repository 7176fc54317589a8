import Unassigned.Proofs.Boundary
import Unassigned.Proofs.Heights

/-!
# `Proofs.ErrorToken` — a scan that stops names a token

Every step that finds something missing blames a token of the file, except that of a call: the only thing it can miss
is the argument at a position (`ScanContext.dispatch_error`). Scopes left over at the end, an error without a token, do
not occur: each scope ends at a token or with the file, so the end of the scan drops them all
(`ScanContext.depth_at_end`). Hence **the analysis error of a scan is about a token of the file**
(`ScanContext.error_token`).
-/

namespace Unassigned

namespace ScanContext

variable (ctx : ScanContext)

/-- A call of a known function: its name stands at `i`, its arguments open at `paren`; `types` gives the
    annotated classes of the variables in the current scope. -/
structure CallsAt (types : List (String × String)) (i paren : Nat) (signature : Signature) : Prop where
  name : ctx.file.kind i = .name
  next : ctx.file.next? i = some paren
  opens : ctx.file.isChar paren '('
  notDeclared : ctx.file.prevIs i (.keyword .functionWord) = false
  known : ctx.callSignature? types i = some signature

variable {ctx} {types : List (String × String)} {i : Nat}

theorem CallsAt.opensCall {paren : Nat} {signature : Signature} (h : ctx.CallsAt types i paren signature) :
    ctx.OpensCall i paren :=
  ⟨h.next, h.opens, h.notDeclared⟩

/-- A call of a known function ends as the look at its by-reference arguments does. -/
theorem CallsAt.result_handleName {paren : Nat} {signature : Signature} (h : ctx.CallsAt types i paren signature) :
    (ctx.handleName types i).result
      = (ctx.file.passReferences signature (ctx.file.positionalArguments paren) signature.refs).result := by
  rw [h.opensCall.handleName_eq, Plan.bind_of_ok rfl]
  unfold handleCall
  rw [h.known]
  dsimp only
  split
  · next hempty =>
      rw [List.isEmpty_iff.mp hempty]
      rfl
  · rw [Plan.bind_of_ok rfl]

variable (ctx)

/-- Only a call of a known function can fail. -/
theorem exists_callsAt (hname : ctx.file.kind i = .name) {e : ScanError}
    (h : (ctx.handleName types i).result = .error e) : ∃ paren signature, ctx.CallsAt types i paren signature := by
  rcases ctx.handleName_cases types i with hpure | ⟨paren, hcall⟩
  · rw [hpure] at h
    cases h
  · rw [hcall.handleName_eq, Plan.bind_of_ok rfl] at h
    unfold handleCall at h
    dsimp only at h
    split at h
    · cases h
    · next signature hsignature =>
        exact ⟨paren, signature, hname, hcall.next, hcall.opens, hcall.notDeclared, hsignature⟩

/-- **What a step misses, it misses at a token of the file**, unless it is the position of an argument. -/
theorem dispatch_error {e : ScanError} (h : (ctx.dispatch types i).result = .error e) :
    (ctx.file.kind i = .name ∧ (ctx.handleName types i).result = .error e) ∨ ctx.file.Blamed e := by
  have hplan := ctx.stepPlan types i
  generalize ctx.dispatch types i = plan at hplan h
  cases hplan with
  | ordinary hplan => exact .inr (hplan.error e h)
  | switch => cases h
  | global => exact .inr ((ctx.file.handleGlobal_keeps i).error e h)
  | function => exact .inr ((ctx.file.handleFunction_keeps i).error e h)
  | arrow => exact .inr ((ctx.file.handleArrowFunction_keeps i).error e h)
  | name hkind =>
      -- the one step that may fail without a token to blame
      refine .inl ⟨hkind, ?_⟩
      cases hname : (ctx.handleName types i).result with
      | ok a =>
          rw [Plan.bind_of_ok hname] at h
          cases h
      | error error =>
          rw [Plan.bind_of_error hname] at h
          simpa using h

end ScanContext

/-! ## The end of a scan -/

theorem TokenStream.EndsScope.le_size {f : TokenStream} (hf : f.WellNested) {b e : Nat}
    (h : f.EndsScope b e) : e ≤ f.size := by
  rcases h with ⟨s, _, rfl⟩ | ⟨o, _, ho⟩
  · rcases f.expressionEnd_cases s with hsize | ⟨hfound, _⟩
    · omega
    · refine Nat.le_of_lt (lt_size_of_kind fun hhtml => ?_)
      simp [endsExpression, isCharOf_iff, hhtml] at hfound
  · exact Nat.le_of_lt (hf.closer_lt ho)

/-- When all scopes end within the file, only that of the file outlives it. -/
theorem length_dropFinishedFrames {n : Nat} {frames : List Frame} (hne : frames ≠ [])
    (hends : ∀ frame ∈ frames, frame.endIndex ≤ n) :
    (ScopeStack.dropFinishedFrames n frames).length = 1 := by
  fun_induction ScopeStack.dropFinishedFrames n frames with
  | case1 frame next rest hover ih =>
      exact ih (by simp) fun other hother => hends other (List.mem_cons_of_mem _ hother)
  | case2 frame next rest hover => exact absurd (hends frame (by simp)) hover
  | case3 frames hshort =>
      rcases short_cases hshort with rfl | ⟨frame, rfl⟩
      · exact absurd rfl hne
      · rfl

theorem Timely.depth_dropFinished {f : TokenStream} (hf : f.WellNested) {b : Nat} {scopes : ScopeStack}
    (h : Timely f b scopes) (hpos : 0 < scopes.depth) : (scopes.dropFinished f.size).depth = 1 := by
  refine length_dropFinishedFrames (List.ne_nil_of_length_pos hpos) fun frame hframe => ?_
  rcases h.ends frame.endIndex (List.mem_map_of_mem hframe) with hneg | ⟨x, hx, hends⟩
  · omega
  · have hle := hends.le_size hf
    omega

namespace ScanContext

variable (ctx : ScanContext)

/-- A scan leaves timely scopes behind, and the error with which it stops is about a token. -/
theorem scanFrom_blames (hf : ctx.file.WellNested) (i : Nat) (st : ScanState)
    (ht : Timely ctx.file.toTokenStream i st.scopes) (hpos : 0 < st.scopes.depth) :
    (∀ e, ctx.scanFrom i st = .error (.analysis e) → ∃ k, e.token? = some (ctx.file.token k))
      ∧ ∀ last, ctx.scanFrom i st = .ok last →
        0 < last.scopes.depth ∧ ∃ b, Timely ctx.file.toTokenStream b last.scopes := by
  fun_induction scanFrom ctx i st with
  | case1 i st hi error herror =>
      refine ⟨fun e he => ?_, fun last hlast => by simp at hlast⟩
      obtain rfl : error = .analysis e := by simpa using he
      rw [ctx.result_plan] at herror
      rcases ctx.dispatch_error herror with ⟨hkind, hname⟩ | ⟨error, k, heq, hk⟩
      · cases (ctx.handleName_keeps _ i).error _ hname
      · cases heq
        exact ⟨k, hk⟩
  | case2 i st hi last hlast ih => exact ih (ht.after hf hlast) (ctx.depth_after i hpos)
  | case3 i st hi =>
      refine ⟨fun e he => by simp at he, fun last hlast => ?_⟩
      obtain rfl : st = last := by simpa using hlast
      exact ⟨hpos, i, ht⟩

/-- **At the end of a scan only the scope of the file is left.** -/
theorem depth_at_end (hf : ctx.file.WellNested) {st : ScanState} (h : ctx.scanFrom 0 {} = .ok st) :
    (st.onScopes fun scopes => scopes.dropFinished ctx.file.size).scopes.depth = 1 := by
  obtain ⟨hpos, b, ht⟩ := (ctx.scanFrom_blames hf 0 {} (timely_start _) (by decide)).2 st h
  exact ht.depth_dropFinished hf hpos

/-- **The error of a scan is about a token of the file.** -/
theorem error_token (hf : ctx.file.WellNested) {e : AnalysisError}
    (h : ctx.defects = .error (.analysis e)) : ∃ k, e.token? = some (ctx.file.token k) := by
  unfold defects scan at h
  cases hrun : ctx.scanFrom 0 {} with
  | error error =>
      obtain rfl : error = .analysis e := by simpa [hrun, bind, Except.bind, Except.map] using h
      exact (ctx.scanFrom_blames hf 0 {} (timely_start _) (by decide)).1 e hrun
  | ok st => simp [hrun, bind, Except.bind, Except.map, finish, ctx.depth_at_end hf hrun] at h

end ScanContext

end Unassigned
