import Unassigned.Proofs.Heights

/-!
# `Proofs.Knowledge` — what scopes know, and reports about what they do not

A scope only learns: a name that is known in a frame is known there until the frame is dropped. A variable is
reported as **missing** (undefined, possibly undefined, created by an array element or by an update) only
where the frame in question does not know it, and from then on the frame does. So a frame gets one such report
for a name at most. The exception is a capture by value, which is checked in the scope around the closure and
leaves that scope as it is.

`found?` says what a command finds and so may report (`perform_notes`); the rest follows by `evolves_of_staysOpen`.
-/

namespace Unassigned

/-- The finding is that a variable is not known. -/
def Finding.isMissing : Finding → Bool
  | .undefined | .possiblyUndefined | .arrayAutovivification | .scalarAutovivification => true
  | _ => false

namespace Command

/-- A variable is captured by value. -/
def isValueCapture : Command → Bool
  | .checkOuter _ => true
  | _ => false

/-- The token whose variable the command assigns, binds or declares. -/
def bound? : Command → Option Token
  | .assign token _ | .autovivify token _ | .coalesce token | .update token _ _
  | .standAlone token | .declare token | .bindParameter token _ | .declareOuter token => some token
  | _ => none

end Command

theorem Command.keepsDepth_of_bound {c : Command} {token : Token} (h : c.bound? = some token) :
    c.keepsDepth := by
  cases c with
  | bindParameter => exact keepsDepth_of_isHeader rfl
  | declareOuter => exact keepsDepth_of_isHeader rfl
  | assign | autovivify | coalesce | update | standAlone | declare =>
      exact keepsDepth_of_isLocal rfl
  | _ => simp [bound?] at h

/-! ## Names that become known -/

namespace ScopeStack

variable {stack old new : ScopeStack} {level : Nat} {name : String}

theorem declares_iff :
    stack.declares level name ↔ ∃ frame, stack.frame? level = some frame ∧ name ∈ frame.names := by
  unfold declares
  cases stack.frame? level with
  | none => simp
  | some frame => simp [frame.declares_iff]

theorem declares_touch (hlevel : level < stack.depth) (token : Token)
    {change : Variable → Variable} (hchange : ∀ v, (change v).token = v.token) :
    (stack.touch level token change).declares level token.text := by
  have hne : stack.frames.drop level ≠ [] := by simpa [depth] using hlevel
  obtain ⟨frame, hframe, hname⟩ := declares_touchVariable hchange hne
  refine declares_iff.mpr ⟨frame, ?_, hname⟩
  show (stack.frames.take level ++ touchVariable token change (stack.frames.drop level))[level]? = _
  have hlen : (stack.frames.take level).length = level :=
    List.length_take_of_le (Nat.le_of_lt hlevel)
  rw [List.getElem?_append_right (by omega), hlen, Nat.sub_self, hframe]

end ScopeStack

/-- The name is in the frame at a height. -/
def ScopeStack.Knows (stack : ScopeStack) (h : Nat) (name : String) : Prop :=
  ∃ frame, stack.atHeight h = some frame ∧ name ∈ frame.names

variable {level : Nat} {st : ScanState}

theorem ScopeStack.declares_iff_knows {stack : ScopeStack} {name : String} (hlevel : level < stack.depth) :
    stack.declares level name ↔ stack.Knows (stack.depth - 1 - level) name := by
  rw [declares_iff, frame?_eq_atHeight hlevel, Knows]

theorem ScopeStep.knows {c : Command} {old new : ScopeStack} (hstep : ScopeStep c old new)
    {h : Nat} {name : String} (hknows : old.Knows h name) (hh : h < new.depth) :
    new.Knows h name := by
  obtain ⟨frame, hframe, hname⟩ := hknows
  obtain ⟨frame', hframe', hevolves⟩ := hstep.atHeight hframe hh
  exact ⟨frame', hframe', hevolves.names.subset hname⟩

theorem ScanState.declares_assignWith (hlevel : level < st.scopes.depth) (token : Token)
    {change : Variable → Variable} (hchange : ∀ v, (change v).token = v.token) :
    (st.assignWith level token change).scopes.declares level token.text :=
  ScopeStack.declares_touch hlevel token fun _ => hchange _

theorem ScanState.declares_assign (hlevel : level < st.scopes.depth) (token : Token) :
    (st.assign level token).scopes.declares level token.text :=
  declares_assignWith hlevel token fun _ => rfl

theorem ScanState.depth_assign (st : ScanState) (level : Nat) (token : Token) :
    (st.assign level token).scopes.depth = st.scopes.depth :=
  (st.scopes.modifyFrom_grow (touchVariable_grow token _) level).length_eq.symm

theorem ScanState.declares_declare (hlevel : level < st.scopes.depth) (token : Token) :
    (st.declare level token).scopes.declares level token.text := by
  unfold declare
  split
  next h => exact h
  next => exact declares_assign hlevel token

/-! ## Reports of one command -/

namespace ScanContext

variable (ctx : ScanContext)

/-- What the read of a variable finds if the variable is not known. -/
def missing? (token : Token) (lenient : Bool) (level : Nat) (st : ScanState) : Option Defect :=
  if ctx.isKnown st level token.text then none
  else if st.scopes.modeAt level == .relaxed || lenient then some ⟨token, .warning, .possiblyUndefined⟩
  else some ⟨token, .error, .undefined⟩

/-- **What a command finds**, whether or not it is grave enough to be reported. -/
def found? (st : ScanState) : Command → Option Defect
  | .applySwitch i => (st.scopes.applyPending i).2.map fun trigger => ⟨trigger, .notice, .relaxedMode⟩
  | .read token =>
    if st.consumed.contains token.index || ctx.skipsReads st then none else ctx.missing? token false 0 st
  | .readLeniently token => if ctx.skipsReads st then none else ctx.missing? token true 0 st
  | .check token => ctx.missing? token false 0 st
  | .checkOuter token => ctx.missing? token false 1 st
  | .autovivify token finding => if ctx.isKnown st 0 token.text then none else some ⟨token, .warning, finding⟩
  | .update token finding isAlone =>
    if ctx.isKnown st 0 token.text then if isAlone then some ⟨token, .notice, .emptyDeclaration⟩ else none
    else some ⟨token, .warning, finding⟩
  | .standAlone token => some ⟨token, .notice, .emptyDeclaration⟩
  | .rejectReference token => some ⟨token, .error, .nonVariableByReference⟩
  | _ => none

/-- From one state to another what was found is reported, if it is grave enough, and no token that was dealt with is
    forgotten. -/
structure Notes (found : Option Defect) (st st' : ScanState) : Prop where
  defects : st'.defects = (found.filter fun d => d.severity.atLeast ctx.level).toList ++ st.defects
  consumed : st.consumed <:+ st'.consumed

variable {ctx} {level : Nat} {st : ScanState}
variable {token : Token} {name : String} {c : Command} {k h : Nat} {d : Defect}

namespace Notes

variable {found : Option Defect} {st' : ScanState}

theorem silent (hdefects : st'.defects = st.defects) (hconsumed : st'.consumed = st.consumed) : ctx.Notes none st st' :=
  ⟨hdefects, hconsumed ▸ List.suffix_rfl⟩

/-- What happens to the scopes does not matter. -/
theorem of_scopes {scopes : ScopeStack} (h : ctx.Notes found { st with scopes } st') : ctx.Notes found st st' :=
  ⟨h.defects, h.consumed⟩

theorem assign (h : ctx.Notes found st st') : ctx.Notes found st (st'.assign level token) :=
  ⟨h.defects, h.consumed⟩

theorem defects_eq (h : ctx.Notes found st st') :
    st'.defects = st.defects ∨ ∃ d, found = some d ∧ st'.defects = d :: st.defects := by
  rw [h.defects]
  cases hfilter : found.filter fun d => d.severity.atLeast ctx.level with
  | none => exact .inl rfl
  | some d => exact .inr ⟨d, (Option.filter_eq_some_iff.mp hfilter).1, rfl⟩

theorem reports_iff (h : ctx.Notes found st st') :
    st'.defects = d :: st.defects ↔ found = some d ∧ d.severity.atLeast ctx.level := by
  have hgrave : found.filter (fun d => d.severity.atLeast ctx.level) = some d
      ↔ found = some d ∧ d.severity.atLeast ctx.level := Option.filter_eq_some_iff
  rw [h.defects, ← hgrave]
  cases found.filter fun d => d.severity.atLeast ctx.level with
  | none => simp
  | some d' => simp

end Notes

theorem report_notes (token : Token) (severity : Severity) (finding : Finding) (st : ScanState) :
    ctx.Notes (some ⟨token, severity, finding⟩) st (ctx.report token severity finding st) := by
  unfold report
  split
  next hgrave => exact ⟨by simp [Option.filter_some, hgrave], List.suffix_rfl⟩
  next hslight => exact ⟨by simp [hslight], List.suffix_rfl⟩

theorem check_notes (token : Token) (lenient : Bool) (level : Nat) (create : Bool) (st : ScanState) :
    ctx.Notes (ctx.missing? token lenient level st) st (ctx.check token lenient level create st) := by
  -- whichever finding it is, the variable is created afterwards if need be
  have hcreate : ∀ {found st'}, ctx.Notes found st st' →
      ctx.Notes found st (if create then st'.assign level token else st') := by
    intro found st' hnotes
    split
    · exact hnotes.assign
    · exact hnotes
  unfold check missing? isKnown
  by_cases hpre : ctx.isPredefined st level token.text
  · rw [if_pos hpre, if_pos (by simp [hpre])]
    exact .silent rfl rfl
  · by_cases hdecl : st.scopes.declares level token.text
    · rw [if_neg hpre, if_pos hdecl, if_pos (by simp [hdecl])]
      exact .silent rfl rfl
    · rw [if_neg hpre, if_neg hdecl, if_neg (by simp [hpre, hdecl])]
      split
      · exact hcreate (report_notes ..)
      · exact hcreate (report_notes ..)

theorem autovivify_notes (token : Token) (finding : Finding) (st : ScanState) :
    ctx.Notes (ctx.found? st (.autovivify token finding)) st (ctx.autovivify token finding st) := by
  unfold autovivify found?
  dsimp only
  split
  · exact .silent rfl rfl
  · exact (report_notes ..).assign

theorem declare_notes (level : Nat) (token : Token) (st : ScanState) : ctx.Notes none st (st.declare level token) := by
  unfold ScanState.declare
  split <;> exact .silent rfl rfl

theorem applyDocComment_notes (token : Token) (st : ScanState) : ctx.Notes none st (applyDocComment token st) := by
  -- the type of a variable is noted in its scope
  have hnoted : ∀ scopes : ScopeStack, ctx.Notes none st
      (if scopes.modeAt 0 == .relaxed then { st with scopes }.declare 0 token else { st with scopes }) := by
    intro scopes
    split
    · exact (declare_notes ..).of_scopes
    · exact .silent rfl rfl
  unfold applyDocComment
  cases st.annotations.lookup token.text with
  | none => exact .silent rfl rfl
  | some type =>
      cases type with
      | none => exact hnoted st.scopes
      | some type => exact hnoted _

/-- **What a command notes** is what it finds. -/
theorem perform_notes (c : Command) (st : ScanState) : ctx.Notes (ctx.found? st c) st (ctx.perform c st) := by
  cases c with
  | applySwitch i =>
      dsimp only [perform, applySwitch, found?]
      cases (st.scopes.applyPending i).2 with
      | none => exact .silent rfl rfl
      | some trigger => exact (report_notes ..).of_scopes
  | forgetAnnotations i =>
      dsimp only [perform]
      split <;> exact .silent rfl rfl
  | applyDocComment token => exact applyDocComment_notes token st
  | read token | readLeniently token =>
      dsimp only [perform, read, found?]
      split
      · exact .silent rfl rfl
      · exact check_notes ..
  | check token | checkOuter token => exact check_notes ..
  | autovivify token finding => exact autovivify_notes token finding st
  | coalesce token =>
      -- a variable that is known is not found missing
      dsimp only [perform]
      split
      next hknown =>
        have hnotes := ctx.check_notes token false 0 true st
        rwa [missing?, if_pos hknown] at hnotes
      next => exact .silent rfl rfl
  | update token finding isAlone =>
      have hcreated := ctx.autovivify_notes token finding st
      dsimp only [perform, found?] at hcreated ⊢
      by_cases hknown : ctx.isKnown st 0 token.text
      · rw [if_pos hknown, if_pos hknown]
        split
        · exact (report_notes ..).assign
        · unfold read
          split
          · exact .silent rfl rfl
          · have hnotes := ctx.check_notes token false 0 true st
            rwa [missing?, if_pos hknown] at hnotes
      · rw [if_neg hknown] at hcreated
        rwa [if_neg hknown, if_neg hknown]
  | standAlone token => exact (report_notes ..).assign
  | declare token | declareOuter token => exact declare_notes ..
  | test token =>
      dsimp only [perform]
      split
      · have hnotes := ctx.declare_notes 0 token st
        exact ⟨hnotes.defects, hnotes.consumed.trans (List.suffix_cons _ _)⟩
      · exact .silent rfl rfl
  | consume i => exact ⟨rfl, List.suffix_cons _ _⟩
  | rejectReference token => exact report_notes ..
  | _ => exact .silent rfl rfl

theorem eq_of_missing {lenient : Bool} (h : ctx.missing? token lenient level st = some d) :
    ctx.isKnown st level token.text = false ∧ d.token = token := by
  unfold missing? at h
  split at h
  · cases h
  next hunknown =>
    refine ⟨by simpa using hunknown, ?_⟩
    split at h <;> cases h <;> rfl

/-- A variable that was not known is known after a check that creates it. -/
theorem declares_check {lenient : Bool} (hunknown : ctx.isKnown st level token.text = false)
    (hlevel : level < st.scopes.depth) : (ctx.check token lenient level true st).scopes.declares level token.text := by
  obtain ⟨hpre, hdecl⟩ : ctx.isPredefined st level token.text = false
      ∧ st.scopes.declares level token.text = false := by
    simpa [isKnown] using hunknown
  rw [check, if_neg (by simp [hpre]), if_neg (by simp [hdecl])]
  refine ScanState.declares_assign ?_ token
  split <;> rwa [ctx.report_scopes]

theorem declares_autovivify (finding : Finding) (hst : 0 < st.scopes.depth) :
    (ctx.autovivify token finding st).scopes.declares 0 token.text := by
  refine ScanState.declares_assign ?_ token
  split
  · exact hst
  · rwa [ctx.report_scopes]

/-- **A variable is found missing** only where it is not known, and a capture by value apart it is known there
    afterwards. -/
theorem unknown_of_found (hfound : ctx.found? st c = some d) (hmissing : d.finding.isMissing)
    (hreach : c.reach < st.scopes.depth) :
    c.keepsDepth ∧ ctx.isKnown st c.reach d.token.text = false
      ∧ (c.isValueCapture = false → (ctx.perform c st).scopes.declares c.reach d.token.text) := by
  cases c with
  | applySwitch i =>
      obtain ⟨trigger, _, rfl⟩ := Option.map_eq_some_iff.mp hfound
      cases hmissing
  | read token | readLeniently token =>
      dsimp only [found?] at hfound
      split at hfound
      · cases hfound
      next hskips =>
        obtain ⟨hunknown, rfl⟩ := eq_of_missing hfound
        refine ⟨Command.keepsDepth_of_isLocal rfl, hunknown, fun _ => ?_⟩
        simp only [perform, read, if_neg hskips]
        exact declares_check hunknown hreach
  | check token =>
      obtain ⟨hunknown, rfl⟩ := eq_of_missing hfound
      exact ⟨Command.keepsDepth_of_isLocal rfl, hunknown, fun _ => declares_check hunknown hreach⟩
  | checkOuter token =>
      obtain ⟨hunknown, rfl⟩ := eq_of_missing hfound
      exact ⟨Command.keepsDepth_of_isHeader rfl, hunknown, by rintro ⟨⟩⟩
  | autovivify token finding =>
      dsimp only [found?] at hfound
      split at hfound
      · cases hfound
      next hunknown =>
        cases hfound
        exact ⟨Command.keepsDepth_of_isLocal rfl, Bool.eq_false_iff.mpr hunknown,
          fun _ => declares_autovivify finding hreach⟩
  | update token finding isAlone =>
      dsimp only [found?] at hfound
      split at hfound
      · split at hfound
        · cases hfound
          cases hmissing
        · cases hfound
      next hunknown =>
        cases hfound
        refine ⟨Command.keepsDepth_of_isLocal rfl, Bool.eq_false_iff.mpr hunknown, fun _ => ?_⟩
        rw [perform, if_neg hunknown]
        exact declares_autovivify finding hreach
  | standAlone token | rejectReference token =>
      cases hfound
      cases hmissing
  | _ => cases hfound

/-! ## What one command makes known -/

/-- A name that is set beforehand in the frame at a height. -/
def Predefined (ctx : ScanContext) (h : Nat) (name : String) : Prop :=
  name ∈ superglobals ∨ h = 0 ∧ name ∈ ctx.knownGlobals

theorem isKnown_iff (hlevel : level < st.scopes.depth) :
    ctx.isKnown st level name ↔ ctx.Predefined (st.scopes.depth - 1 - level) name
      ∨ st.scopes.Knows (st.scopes.depth - 1 - level) name := by
  have hfile : st.scopes.depth - level = 1 ↔ st.scopes.depth - 1 - level = 0 := by omega
  rw [← ScopeStack.declares_iff_knows hlevel]
  simp [isKnown, isPredefined, Predefined, hfile]

theorem isKnown_of_declares (h : st.scopes.declares level name) : ctx.isKnown st level name := by
  simp [isKnown, h]

/-- A name that is known stays known. -/
theorem isKnown_perform (hc : c.keepsDepth) (hlevel : level < st.scopes.depth) (h : ctx.isKnown st level name) :
    ctx.isKnown (ctx.perform c st) level name := by
  have hstep := ctx.perform_scopes c st
  have hdepth := hc _ _ hstep
  rw [isKnown_iff (by omega), hdepth]
  rcases (isKnown_iff hlevel).mp h with h | h
  · exact .inl h
  · exact .inr (hstep.knows h (by omega))

/-- A command that binds a variable makes it known. -/
theorem perform_binds (hbound : c.bound? = some token) (hreach : c.reach < st.scopes.depth) :
    ctx.isKnown (ctx.perform c st) c.reach token.text := by
  cases c with
  | assign _ role =>
      cases hbound
      exact isKnown_of_declares (ScanState.declares_assignWith hreach token fun v => role.mark_token v)
  | autovivify _ finding =>
      cases hbound
      exact isKnown_of_declares (declares_autovivify finding hreach)
  | coalesce _ =>
      cases hbound
      -- what is known already is checked only
      by_cases hknown : ctx.isKnown st 0 token.text = true
      · exact isKnown_perform (Command.keepsDepth_of_isLocal rfl) hreach hknown
      · rw [perform, if_neg hknown]
        exact isKnown_of_declares (ScanState.declares_assign hreach token)
  | update _ finding isAlone =>
      cases hbound
      by_cases hknown : ctx.isKnown st 0 token.text = true
      · exact isKnown_perform (Command.keepsDepth_of_isLocal rfl) hreach hknown
      · rw [perform, if_neg hknown]
        exact isKnown_of_declares (declares_autovivify finding hreach)
  | standAlone _ =>
      cases hbound
      exact isKnown_of_declares (ScanState.declares_assign (by rwa [ctx.report_scopes]) token)
  | declare _ =>
      cases hbound
      exact isKnown_of_declares (ScanState.declares_declare hreach token)
  | bindParameter _ isRef =>
      cases hbound
      refine isKnown_of_declares (ScopeStack.declares_iff.mpr ?_)
      obtain ⟨top, below, hframes⟩ := List.exists_cons_of_length_pos hreach
      refine ⟨top.bind { token := token, status := .assigned, isRefParam := isRef }, ?_,
        top.mem_names_bind _⟩
      show (st.scopes.frames.modifyHead _)[0]? = _
      rw [hframes]
      rfl
  | declareOuter _ =>
      cases hbound
      exact isKnown_of_declares (ScanState.declares_declare hreach token)
  | _ => simp [Command.bound?] at hbound

/-! ## Reports through the moments -/

variable (ctx)

/-- The name is known in the frame at height `h` at a moment. -/
def KnownAt (k h : Nat) (name : String) : Prop :=
  (ctx.stateAt k).scopes.Knows h name

/-- The command after moment `k` is about the frame at height `h`. -/
def ActsAt (k : Nat) (c : Command) (h : Nat) : Prop :=
  ctx.history[k]? = some c ∧ h + c.reach + 1 = (ctx.stateAt k).scopes.depth

/-- The command after moment `k` reports a defect. -/
def ReportsAt (k : Nat) (d : Defect) : Prop :=
  (ctx.stateAt (k + 1)).defects = d :: (ctx.stateAt k).defects

theorem exists_actsAt (hk : ctx.history[k]? = some c) : ∃ h, ctx.ActsAt k c h := by
  have hreach := ctx.reach_lt_depth hk
  exact ⟨(ctx.stateAt k).scopes.depth - 1 - c.reach, hk, by omega⟩

theorem knownAt_of_staysOpen {a b : Nat} (hab : a ≤ b) (hopen : ctx.StaysOpen h a b) (hknown : ctx.KnownAt a h name) :
    ctx.KnownAt b h name := by
  obtain ⟨frame, hframe, hname⟩ := hknown
  obtain ⟨frame', hframe', hevolves⟩ := ctx.evolves_of_staysOpen hab hopen hframe
  exact ⟨frame', hframe', hevolves.names.subset hname⟩

theorem ActsAt.height (hacts : ctx.ActsAt k c h) : h = (ctx.stateAt k).scopes.depth - 1 - c.reach := by
  have hdepth := hacts.2
  omega

theorem ActsAt.reach_lt (hacts : ctx.ActsAt k c h) : c.reach < (ctx.stateAt k).scopes.depth := by
  have hdepth := hacts.2
  omega

/-- Each command reports one defect at most. -/
theorem stateAt_defects (k : Nat) :
    (ctx.stateAt (k + 1)).defects = (ctx.stateAt k).defects ∨ ∃ d, ctx.ReportsAt k d := by
  cases hk : ctx.history[k]? with
  | none => exact .inl (by rw [ctx.stateAt_succ_of_none hk])
  | some c =>
      unfold ReportsAt
      rw [ctx.stateAt_succ hk]
      exact (perform_notes c (ctx.stateAt k)).defects_eq.imp_right fun ⟨d, _, hnew⟩ => ⟨d, hnew⟩

theorem reportsAt_iff (hk : ctx.history[k]? = some c) :
    ctx.ReportsAt k d ↔ ctx.found? (ctx.stateAt k) c = some d ∧ d.severity.atLeast ctx.level := by
  rw [ReportsAt, ctx.stateAt_succ hk]
  exact (perform_notes c (ctx.stateAt k)).reports_iff

theorem exists_found_of_reportsAt (hreport : ctx.ReportsAt k d) :
    ∃ c, ctx.history[k]? = some c ∧ ctx.found? (ctx.stateAt k) c = some d := by
  cases hk : ctx.history[k]? with
  | none =>
      rw [ReportsAt, ctx.stateAt_succ_of_none hk] at hreport
      exact absurd hreport.symm (List.cons_ne_self d _)
  | some c => exact ⟨c, rfl, ((ctx.reportsAt_iff hk).mp hreport).1⟩

/-- **A report of a missing variable is justified:** the variable is neither known in the frame nor set
    beforehand, and it is known in the frame afterwards, a capture by value apart. -/
theorem unknown_of_reportsAt (hreport : ctx.ReportsAt k d) (hmissing : d.finding.isMissing)
    (hacts : ctx.ActsAt k c h) :
    ¬ ctx.Predefined h d.token.text ∧ ¬ ctx.KnownAt k h d.token.text
      ∧ (c.isValueCapture = false → ctx.KnownAt (k + 1) h d.token.text) := by
  have hreach := hacts.reach_lt
  obtain ⟨hkeeps, hunknown, hknown⟩ := unknown_of_found ((ctx.reportsAt_iff hacts.1).mp hreport).1 hmissing hreach
  have hdepth := hkeeps _ _ (ctx.perform_scopes c (ctx.stateAt k))
  have hnot : ¬ (ctx.Predefined h d.token.text ∨ ctx.KnownAt k h d.token.text) := by
    rw [hacts.height, KnownAt, ← isKnown_iff hreach, hunknown]
    simp
  refine ⟨fun hpre => hnot (.inl hpre), fun hknown => hnot (.inr hknown), fun hcapture => ?_⟩
  rw [KnownAt, ctx.stateAt_succ hacts.1, hacts.height, ← hdepth]
  exact (ScopeStack.declares_iff_knows (by omega)).mp (hknown hcapture)

/-- What a command binds in a frame is set beforehand or known there. -/
theorem known_of_bound (hacts : ctx.ActsAt k c h) (hbound : c.bound? = some token) :
    ctx.Predefined h token.text ∨ ctx.KnownAt (k + 1) h token.text := by
  have hreach := hacts.reach_lt
  have hdepth := Command.keepsDepth_of_bound hbound _ _ (ctx.perform_scopes c (ctx.stateAt k))
  rw [KnownAt, ctx.stateAt_succ hacts.1, hacts.height, ← hdepth]
  exact (isKnown_iff (by omega)).mp (perform_binds hbound hreach)

/-- The end of a scan reports no variable as missing. -/
theorem finish_missing {st final : ScanState} (hfinish : ctx.finish st = .ok final) :
    final.defects.filter (·.finding.isMissing) = st.defects.filter (·.finding.isMissing) := by
  have hfold : ∀ (vs : List Variable) (st : ScanState),
      (vs.foldl (fun st v => ctx.report v.token .notice .valueNotUsed st) st).defects.filter
          (·.finding.isMissing)
        = st.defects.filter (·.finding.isMissing) := by
    intro vs
    induction vs with
    | nil => exact fun _ => rfl
    | cons v vs ih =>
        intro st
        rw [List.foldl_cons, ih]
        rcases (ctx.report_notes v.token .notice .valueNotUsed st).defects_eq with h | ⟨d, hd, h⟩ <;> rw [h]
        cases hd
        rw [List.filter_cons_of_neg (by simp [Finding.isMissing])]
  unfold finish at hfinish
  dsimp only at hfinish
  split at hfinish
  · obtain rfl := Except.ok.inj hfinish
    exact hfold _ _
  · simp at hfinish

/-- **Scopes only learn, and reports of missing variables are sound.** For the scan of any file, at any
    level and with any settings. -/
theorem missing_reports_sound (ctx : ScanContext) :
    -- a name never leaves a frame that stays open
    (∀ h a b name, a ≤ b → ctx.StaysOpen h a b → ctx.KnownAt a h name → ctx.KnownAt b h name)
    -- the missing variables that the scan reports are those that single commands report
    ∧ (∀ final, ctx.scan = .ok final →
        final.defects.filter (·.finding.isMissing)
          = (ctx.stateAt ctx.history.length).defects.filter (·.finding.isMissing))
    ∧ (∀ k, (ctx.stateAt (k + 1)).defects = (ctx.stateAt k).defects ∨ ∃ d, ctx.ReportsAt k d)
    -- such a report is about a frame that does not know the name, but does so afterwards
    ∧ (∀ k d, ctx.ReportsAt k d → d.finding.isMissing → ∃ c h, ctx.ActsAt k c h
        ∧ d.token.text ∉ superglobals ∧ ¬ ctx.KnownAt k h d.token.text
        ∧ ¬ (h = 0 ∧ d.token.text ∈ ctx.knownGlobals)
        ∧ (ctx.KnownAt (k + 1) h d.token.text ∨ c.isValueCapture))
    -- a frame gets one such report for a name at most, captures by value apart
    ∧ (∀ j k c c' h d d', j < k → ctx.StaysOpen h j k → ctx.ActsAt j c h → ctx.ActsAt k c' h →
        ctx.ReportsAt j d → d.finding.isMissing → ctx.ReportsAt k d' → d'.finding.isMissing →
        d.token.text = d'.token.text → c.isValueCapture)
    -- and none once the name is known, or was bound in any way
    ∧ (∀ a k c h d name, a ≤ k → ctx.StaysOpen h a k → ctx.KnownAt a h name → ctx.ActsAt k c h →
        ctx.ReportsAt k d → d.finding.isMissing → d.token.text ≠ name)
    ∧ (∀ j k c c' h d token, j < k → ctx.StaysOpen h j k → ctx.ActsAt j c h →
        c.bound? = some token → ctx.ActsAt k c' h →
        ctx.ReportsAt k d → d.finding.isMissing → d.token.text ≠ token.text) := by
  have hlater : ∀ {h j k : Nat}, ctx.StaysOpen h j k → ctx.StaysOpen h (j + 1) k :=
    fun hopen i hi => hopen i (by omega)
  refine ⟨fun h a b name => ctx.knownAt_of_staysOpen, ?_, ctx.stateAt_defects, ?_, ?_, ?_, ?_⟩
  · intro final hscan
    obtain ⟨st, hst, hfinish⟩ := ctx.scan_eq_ok.mp hscan
    rw [ctx.stateAt_length_history hst]
    exact ctx.finish_missing hfinish
  · intro k d hreport hmissing
    cases hk : ctx.history[k]? with
    | none =>
        rw [ReportsAt, ctx.stateAt_succ_of_none hk] at hreport
        exact absurd hreport.symm (List.cons_ne_self d _)
    | some c =>
        obtain ⟨h, hacts⟩ := ctx.exists_actsAt hk
        obtain ⟨hpre, hunknown, hknown⟩ := ctx.unknown_of_reportsAt hreport hmissing hacts
        refine ⟨c, h, hacts, fun hsuper => hpre (.inl hsuper), hunknown,
          fun hglobal => hpre (.inr hglobal), ?_⟩
        cases hcapture : c.isValueCapture with
        | true => exact .inr rfl
        | false => exact .inl (hknown hcapture)
  · intro j k c c' h d d' hjk hopen hj hk hreportj hmissingj hreportk hmissingk hname
    obtain ⟨_, _, hknown⟩ := ctx.unknown_of_reportsAt hreportj hmissingj hj
    obtain ⟨_, hunknown, _⟩ := ctx.unknown_of_reportsAt hreportk hmissingk hk
    cases hcapture : c.isValueCapture with
    | true => rfl
    | false =>
        -- the first report made the name known, and it is still known at the second
        refine absurd ?_ hunknown
        rw [← hname]
        exact ctx.knownAt_of_staysOpen hjk (hlater hopen) (hknown hcapture)
  · rintro a k c h d name hak hopen hknown hk hreport hmissing rfl
    obtain ⟨_, hunknown, _⟩ := ctx.unknown_of_reportsAt hreport hmissing hk
    exact hunknown (ctx.knownAt_of_staysOpen hak hopen hknown)
  · intro j k c c' h d token hjk hopen hj hbound hk hreport hmissing hname
    obtain ⟨hpre, hunknown, _⟩ := ctx.unknown_of_reportsAt hreport hmissing hk
    rw [hname] at hpre hunknown
    rcases ctx.known_of_bound hj hbound with hbound | hbound
    · exact hpre hbound
    · exact hunknown (ctx.knownAt_of_staysOpen hjk (hlater hopen) hbound)

end ScanContext

end Unassigned
