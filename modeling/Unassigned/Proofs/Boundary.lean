import Unassigned.Proofs.ScopeStep
import Unassigned.Proofs.StepEnd
import Unassigned.Proofs.Trigger

/-!
# `Proofs.Boundary` — what is due between two steps

On arrival at a token a waiting switch is applied to the innermost scope, and then the scopes that are over
are dropped. If white space stands before the token, the scan arrives there first. That makes a difference
only if a scope is over at the white space, and the switch falls due at the token: then the scope is gone
when the switch comes. **No scan gets into this situation** (`Timely.steady`). A step that leaves a scope
behind that is over ends with a statement, and no switch falls due at the first token of a statement
(`WellNested.statementEnd_ne_succ`).
-/

namespace Unassigned

namespace TokenStream

variable {f : TokenStream}

/-! ## Ends of statements and scopes -/

/-- A token at which the expression of an arrow function can end. -/
def endsExpression (f : TokenStream) (i : Nat) : Bool :=
  f.kind i == .closeTag || f.isCharOf i [';', ',', ')', ']', '\x7d']

theorem expressionEnd_eq (i : Nat) : f.expressionEnd i = f.searchEnd f.endsExpression i := rfl

theorem expressionEnd_cases (i : Nat) : f.expressionEnd i = f.size
    ∨ (f.endsExpression (f.expressionEnd i) ∧ (f.token (f.expressionEnd i)).isTrivial = false) :=
  searchEnd_found i

/-- No statement ends directly behind the end of another one. -/
theorem WellNested.statementEnd_ne_succ (hf : f.WellNested) {q m : Nat} (hq : q < f.size)
    (hstart : f.endsStatement q = false) (hm : f.kind m = .char ';' ∨ f.kind m = .closeTag) :
    f.statementEnd q ≠ m + 1 := by
  have hends : f.endsStatement m := endsStatement_iff.mpr (by rcases hm with hm | hm <;> simp [hm])
  have hsize : m < f.size := lt_size_of_kind (by rcases hm with hm | hm <;> simp [hm])
  have hsig : (f.token m).isTrivial = false := by
    show (f.kind m).isTrivial = false
    rcases hm with hm | hm <;> rw [hm] <;> rfl
  rw [statementEnd_eq]
  have hlt : q < f.searchEnd f.endsStatement q := lt_searchEnd hq
  rcases Nat.lt_trichotomy q m with hqm | rfl | hmq
  · rcases hf.searchEnd_cases f.endsStatement hqm hsize hsig
      with hle | ⟨hnot, _⟩ | ⟨o, c, _, _, hgroup, hmc, hce⟩
    · omega
    · exact absurd hends hnot
    · -- the token is in a group, and it is not the bracket that closes the group
      have hne : m ≠ c := by
        rintro rfl
        have hclosing := (hf.sorts hgroup).2.1
        rcases hm with hm | hm <;> simp [hm, Kind.closing?] at hclosing
      omega
  · rw [hstart] at hends
    simp at hends
  · omega

/-- A scope that is opened before `b` can end at `e`. -/
def EndsScope (f : TokenStream) (b e : Nat) : Prop :=
  (∃ s < b, e = f.expressionEnd s) ∨ ∃ o < b, f.closer? o = some e

theorem EndsScope.mono {b b' e : Nat} (h : f.EndsScope b e) (hb : b ≤ b') : f.EndsScope b' e := by
  rcases h with ⟨s, hs, he⟩ | ⟨o, ho, he⟩
  · exact .inl ⟨s, by omega, he⟩
  · exact .inr ⟨o, by omega, he⟩

/-- A scope ends with the file or at a token, which is no opening parenthesis. -/
theorem EndsScope.token (hf : f.WellNested) {b e : Nat} (h : f.EndsScope b e) :
    e = f.size ∨ ((f.token e).isTrivial = false ∧ f.kind e ≠ .char '(') := by
  rcases h with ⟨s, _, rfl⟩ | ⟨o, _, ho⟩
  · rcases f.expressionEnd_cases s with hsize | ⟨hfound, hsig⟩
    · exact .inl hsize
    · refine .inr ⟨hsig, fun hopen => ?_⟩
      simp [endsExpression, isCharOf_iff, hopen] at hfound
  · have hclosing := (hf.sorts ho).2.1
    refine .inr ⟨isTrivial_of_closing hclosing, fun hopen => ?_⟩
    simp [hopen, Kind.closing?] at hclosing

/-- A scope from before a group in parentheses does not end inside the group. -/
theorem EndsScope.not_inside (hf : f.WellNested) {i paren close e : Nat} (h : f.EndsScope i e)
    (hnext : f.next? i = some paren) (hopen : f.kind paren = .char '(')
    (hgroup : f.closer? paren = some close) (hie : i < e) : close < e := by
  have hbounds := f.next?_bounds hnext
  have hpe : paren < e := by
    rcases h.token hf with hsize | ⟨hsig, hkind⟩
    · omega
    · have hle := le_of_next? hnext hie hsig
      have hne : paren ≠ e := by
        rintro rfl
        exact hkind hopen
      omega
  rcases h with ⟨s, hs, rfl⟩ | ⟨o, ho, he⟩
  · rw [expressionEnd_eq] at hpe ⊢
    rcases hf.searchEnd_group f.endsExpression (show s < paren by omega) hgroup with hle | hlt
    · omega
    · exact hlt
  · have hinner := hf.nested he (show o < paren by omega) hpe
    rwa [skipGroup_of_closer hgroup] at hinner

end TokenStream

theorem TokenStream.endsStatement_of_notMem {f : TokenStream} {q : Nat}
    (h : f.kind q ∉ [Kind.inlineHtml, .closeTag, .char ';', .char '\x7d']) :
    q < f.size ∧ f.endsStatement q = false := by
  simp only [List.mem_cons, List.not_mem_nil, or_false, not_or] at h
  obtain ⟨hhtml, hends⟩ := h
  refine ⟨lt_size_of_kind hhtml, ?_⟩
  rw [Bool.eq_false_iff, ne_eq, endsStatement_iff]
  rintro (hq | hq | hq)
  · exact hends.1 hq
  · exact hends.2.1 hq
  · exact hends.2.2 hq

/-- A trigger stands in the middle of its statement. -/
theorem TokenStream.TriggersAt.endsStatement {f : TokenStream} {i q : Nat} (h : f.TriggersAt i q) :
    q < f.size ∧ f.endsStatement q = false := by
  refine endsStatement_of_notMem ?_
  cases h with
  | includes h =>
      unfold TokenStream.isIncludeKeyword at h
      split at h
      iterate 4 next heq => simp [heq]
      · simp at h
  | evals h | extracts h => simp [h]
  | assigns _ _ hq => rcases hq with hq | hq <;> simp [hq]
  | imports _ _ _ _ _ hq => simp [hq]

/-! ## The ends of the scopes around a place -/

namespace ScopeStack

/-- Where the scopes end, the innermost first. -/
def ends (stack : ScopeStack) : List Int :=
  stack.frames.map Frame.endIndex

/-- The innermost of the scopes with these ends is not over before `b`; the file scope never is. -/
def OpenAt (b : Nat) : List Int → Prop
  | e :: _ :: _ => b ≤ e
  | _ => True

theorem ends_applyPending (stack : ScopeStack) (i : Nat) : (stack.applyPending i).1.ends = stack.ends := by
  unfold ends
  rcases stack.frames_applyPending i with h | h
  · rw [h]
  · rw [h]
    cases stack.frames <;> rfl

/-- What is left after the scopes that are over were dropped. -/
theorem openAt_dropFinishedFrames (i : Nat) (frames : List Frame) :
    OpenAt (i + 1) ((dropFinishedFrames i frames).map Frame.endIndex) := by
  fun_induction dropFinishedFrames i frames with
  | case1 frame next rest hended ih => exact ih
  | case2 frame next rest hended =>
      show (((i + 1 : Nat) : Int)) ≤ frame.endIndex
      omega
  | case3 frames hshort =>
      rcases short_cases hshort with rfl | ⟨frame, rfl⟩
      · trivial
      · trivial

theorem mem_ends_of_dropFinished {stack : ScopeStack} {i : Nat} {e : Int}
    (h : e ∈ (stack.dropFinished i).ends) : e ∈ stack.ends :=
  ((dropFinishedFrames_suffix i stack.frames).map Frame.endIndex).subset h

end ScopeStack

theorem FramesGrow.ends_eq {old new : List Frame} (h : FramesGrow old new) :
    new.map Frame.endIndex = old.map Frame.endIndex := by
  induction h with
  | nil => rfl
  | cons hframe _ ih => rw [List.map_cons, List.map_cons, hframe.endIndex, ih]

namespace ScanContext

variable (ctx : ScanContext)
variable {cs : List Command} {st : ScanState}

/-- A command that opens, ends and drops no scope lets the frames grow. -/
theorem perform_grow {c : Command} (hc : c.isLocal ∨ c.isHeader) (st : ScanState) :
    FramesGrow st.scopes.frames (ctx.perform c st).scopes.frames := by
  have hstep := ctx.perform_scopes c st
  generalize (ctx.perform c st).scopes = new at hstep ⊢
  cases hstep with
  | grow hframes => exact hframes
  | schedule => exact .refl _
  | _ => simp [Command.isLocal, Command.isPlain, Command.isTrigger, Command.isHeader] at hc

theorem execute_grow (hcs : ∀ c ∈ cs, c.isLocal ∨ c.isHeader) (st : ScanState) :
    FramesGrow st.scopes.frames (ctx.execute cs st).scopes.frames := by
  induction cs generalizing st with
  | nil => exact .refl _
  | cons c cs ih =>
      rw [execute_cons]
      exact (ctx.perform_grow (hcs c List.mem_cons_self) st).trans
        (ih (fun d hd => hcs d (List.mem_cons_of_mem c hd)) _)

theorem ends_execute (hcs : ∀ c ∈ cs, c.isLocal ∨ c.isHeader) (st : ScanState) :
    (ctx.execute cs st).scopes.ends = st.scopes.ends :=
  (ctx.execute_grow hcs st).ends_eq

/-- A waiting switch after some commands was waiting before, or was scheduled by one of them. -/
theorem pending_execute (hcs : ∀ i, .applySwitch i ∉ cs) {switch : PendingSwitch}
    (h : (ctx.execute cs st).scopes.pending = some switch) :
    st.scopes.pending = some switch ∨ ∃ t e, .schedule t e ∈ cs ∧ switch = ⟨t, (e : Nat)⟩ := by
  induction cs generalizing st with
  | nil => exact .inl h
  | cons c cs ih =>
      rw [execute_cons] at h
      rcases ih (fun i hi => hcs i (List.mem_cons_of_mem c hi)) h with hbefore | ⟨t, e, hmem, heq⟩
      · cases htrigger : c.isTrigger with
        | false =>
            have hswitch : ∀ i, c ≠ .applySwitch i := by
              rintro i rfl
              exact hcs i (List.mem_cons_self ..)
            rw [ctx.pending_perform htrigger hswitch] at hbefore
            exact .inl hbefore
        | true =>
            cases c with
            | schedule t e =>
                obtain rfl : ⟨t, (e : Int)⟩ = switch := Option.some.inj hbefore
                exact .inr ⟨t, e, List.mem_cons_self .., rfl⟩
            | _ => simp [Command.isTrigger] at htrigger
      · exact .inr ⟨t, e, List.mem_cons_of_mem c hmem, heq⟩

/-! ### Arriving at a token -/

theorem arrive_scopes (i : Nat) (st : ScanState) :
    (ctx.arrive i st).scopes = (st.scopes.applyPending i).1.dropFinished i := by
  have hforget : ∀ st : ScanState, (ctx.perform (.forgetAnnotations i) st).scopes = st.scopes := by
    intro st
    dsimp only [perform]
    split <;> rfl
  show (ctx.perform (.forgetAnnotations i)
    (ctx.perform (.dropFinished i) (ctx.perform (.applySwitch i) st))).scopes = _
  rw [hforget]
  show ((ctx.applySwitch i st).scopes).dropFinished i = _
  rw [ctx.applySwitch_scopes]

theorem mem_ends_of_arrive {i : Nat} {e : Int} (h : e ∈ (ctx.arrive i st).scopes.ends) : e ∈ st.scopes.ends := by
  rw [arrive_scopes] at h
  have := ScopeStack.mem_ends_of_dropFinished h
  rwa [ScopeStack.ends_applyPending] at this

theorem openAt_arrive (i : Nat) (st : ScanState) :
    ScopeStack.OpenAt (i + 1) (ctx.arrive i st).scopes.ends := by
  rw [arrive_scopes]
  exact ScopeStack.openAt_dropFinishedFrames i _

theorem pending_of_arrive {i : Nat} {switch : PendingSwitch} (h : (ctx.arrive i st).scopes.pending = some switch) :
    st.scopes.pending = some switch := by
  rw [arrive_scopes] at h
  cases hdue : st.scopes.due? i with
  | none => rwa [ScopeStack.applyPending_of_not_due hdue] at h
  | some due =>
      obtain ⟨hpending, hle⟩ := Option.filter_eq_some_iff.mp hdue
      have hnone := ScopeStack.pending_applyPending_of_due hpending (by simpa using hle)
      rw [ScopeStack.dropFinished, hnone] at h
      simp at h

/-! ### The step at a token -/

theorem ends_openArrow (e : Nat) (st : ScanState) :
    (ctx.perform (.openArrow e) st).scopes.ends = (e : Int) :: st.scopes.ends
      ∨ (ctx.perform (.openArrow e) st).scopes.ends = [] := by
  dsimp only [perform, ScanState.onScopes]
  cases hframe : st.scopes.frame? 0 with
  | some outer => exact .inl rfl
  | none =>
      have hframes : st.scopes.frames = [] := by
        simpa [ScopeStack.frame?] using hframe
      exact .inr (by simp [ScopeStack.ends, hframes])

/-- The header of a function binds in a scope of its own, on top of scopes that may have grown. -/
theorem frames_header (hcs : ∀ c ∈ cs, c.isHeader) (st : ScanState) :
    ∃ top below, (ctx.execute cs (ctx.perform .openFunction st)).scopes.frames = top :: below
      ∧ Frame.Grows { mode := .strict } top ∧ FramesGrow st.scopes.frames below := by
  have hgrow := ctx.execute_grow (fun c hc => .inr (hcs c hc)) (ctx.perform .openFunction st)
  obtain ⟨top, below, htop, hbelow, hframes⟩ := List.forall₂_cons_left_iff.mp hgrow
  exact ⟨top, below, hframes, htop, hbelow⟩

/-- The scopes after the body of a function was opened. -/
theorem grows_body (hcs : ∀ c ∈ cs, c.isHeader) (e : Nat) (st : ScanState) :
    ∃ top below, (ctx.execute (.openFunction :: (cs ++ [.endAt e])) st).scopes.frames = top :: below
      ∧ Frame.Grows { mode := .strict, endIndex := e } top ∧ FramesGrow st.scopes.frames below := by
  obtain ⟨top, below, hframes, htop, hbelow⟩ := ctx.frames_header hcs st
  refine ⟨{ top with endIndex := e }, below, ?_, ⟨htop.names, htop.mode, rfl, htop.ownsAll⟩, hbelow⟩
  rw [execute_cons, execute_append]
  show List.modifyHead _ (ctx.execute cs (ctx.perform .openFunction st)).scopes.frames = _
  rw [hframes]
  rfl

theorem frames_body (hcs : ∀ c ∈ cs, c.isHeader) (e : Nat) (st : ScanState) :
    ∃ top below, (ctx.execute (.openFunction :: (cs ++ [.endAt e])) st).scopes.frames = top :: below
      ∧ top.mode = .strict ∧ top.endIndex = e ∧ FramesGrow st.scopes.frames below := by
  obtain ⟨top, below, hframes, htop, hbelow⟩ := ctx.grows_body hcs e st
  exact ⟨top, below, hframes, htop.mode, htop.endIndex, hbelow⟩

theorem frames_noBody (hcs : ∀ c ∈ cs, c.isHeader) (st : ScanState) :
    FramesGrow st.scopes.frames (ctx.execute (.openFunction :: (cs ++ [.discard])) st).scopes.frames := by
  obtain ⟨top, below, hframes, _, hbelow⟩ := ctx.frames_header hcs st
  rw [execute_cons, execute_append]
  show FramesGrow _ (ctx.execute cs (ctx.perform .openFunction st)).scopes.frames.tail
  rw [hframes]
  exact hbelow

theorem ends_body (hcs : ∀ c ∈ cs, c.isHeader) (e : Nat) (st : ScanState) :
    (ctx.execute (.openFunction :: (cs ++ [.endAt e])) st).scopes.ends = (e : Int) :: st.scopes.ends := by
  obtain ⟨top, below, hframes, _, htop, hbelow⟩ := ctx.frames_body hcs e st
  rw [ScopeStack.ends, hframes, List.map_cons, htop, hbelow.ends_eq]
  rfl

theorem ends_noBody (hcs : ∀ c ∈ cs, c.isHeader) (st : ScanState) :
    (ctx.execute (.openFunction :: (cs ++ [.discard])) st).scopes.ends = st.scopes.ends :=
  (ctx.frames_noBody hcs st).ends_eq

end ScanContext

namespace StepEnds

variable {f : TokenStream} {i last : Nat} {cs : List Command} (h : StepEnds f i cs last)

include h

theorem lt_size (hf : f.WellNested) (hi : i < f.size) : last < f.size := by
  cases h with
  | stay => exact hi
  | caught _ _ _ hgroup hlast =>
      have := hf.closer_lt hgroup
      omega
  | statement _ hlast => exact TokenStream.lt_size_of_kind (by rcases hlast with h | h <;> simp [h])
  | body _ hlast | noBody _ hlast =>
      exact TokenStream.lt_size_of_kind (by rw [TokenStream.isChar_iff.mp hlast]; simp)
  | arrow _ hlast => exact TokenStream.lt_size_of_kind (by simp [hlast])

theorem applySwitch_notMem (j : Nat) : .applySwitch j ∉ cs := by
  intro hmem
  cases h with
  | stay h | caught h | statement h =>
      simpa [Command.isLocal, Command.isPlain, Command.isTrigger] using h _ hmem
  | body h | noBody h | arrow h =>
      have hheader := h (.applySwitch j) (by simpa using hmem)
      simp [Command.isHeader] at hheader

variable (ctx : ScanContext) (st : ScanState)

/-- A step opens no scope but one that ends where it should. -/
theorem mem_ends (hf : f.WellNested) {e : Int} (he : e ∈ (ctx.execute cs st).scopes.ends) :
    e ∈ st.scopes.ends ∨ ∃ x : Nat, e = x ∧ f.EndsScope (last + 1) x := by
  cases h with
  | stay h | caught h | statement h =>
      rw [ctx.ends_execute fun c hc => .inl (h c hc)] at he
      exact .inl he
  | body h hlast =>
      rw [ctx.ends_body h, List.mem_cons] at he
      obtain ⟨close, hclose⟩ := hf.closes_of_isChar hlast rfl
      rcases he with rfl | he
      · rw [TokenStream.skipGroup_of_closer hclose]
        exact .inr ⟨close, rfl, .inr ⟨last, by omega, hclose⟩⟩
      · exact .inl he
  | noBody h =>
      rw [ctx.ends_noBody h] at he
      exact .inl he
  | arrow h =>
      rw [ScanContext.execute_cons, ctx.ends_execute fun c hc => .inr (h c hc)] at he
      rcases ctx.ends_openArrow (f.expressionEnd last) st with hopen | hopen
      · rw [hopen, List.mem_cons] at he
        rcases he with rfl | he
        · exact .inr ⟨f.expressionEnd last, rfl, .inl ⟨last, by omega, rfl⟩⟩
        · exact .inl he
      · rw [hopen] at he
        simp at he

/-- After a step the innermost scope is not over, unless the step ended with a statement. -/
theorem openAt (hf : f.WellNested) (hopen : ScopeStack.OpenAt (i + 1) st.scopes.ends)
    (hends : ∀ e ∈ st.scopes.ends, e < 0 ∨ ∃ x : Nat, e = x ∧ f.EndsScope i x) :
    ScopeStack.OpenAt (last + 1) (ctx.execute cs st).scopes.ends
      ∨ f.kind last = .char ';' ∨ f.kind last = .closeTag := by
  cases h with
  | stay h =>
      rw [ctx.ends_execute fun c hc => .inl (h c hc)]
      exact .inl hopen
  | caught h hparen hkind hgroup hlast =>
      rw [ctx.ends_execute fun c hc => .inl (h c hc)]
      -- a scope that is open at the keyword is open behind its parenthesis
      refine .inl ?_
      match hcases : st.scopes.ends with
      | [] | [_] => trivial
      | e :: e' :: es =>
          rw [hcases] at hopen
          have hie : ((i + 1 : Nat) : Int) ≤ e := hopen
          rcases hends e (by simp [hcases]) with hneg | ⟨x, rfl, hx⟩
          · omega
          · have := hx.not_inside hf hparen hkind hgroup (by omega)
            show ((last + 1 : Nat) : Int) ≤ x
            omega
  | statement _ hlast => exact .inr hlast
  | body h hlast =>
      rw [ctx.ends_body h]
      obtain ⟨close, hclose⟩ := hf.closes_of_isChar hlast rfl
      have := (TokenStream.closer?_eq_some.mp hclose).2
      refine .inl ?_
      rw [TokenStream.skipGroup_of_closer hclose]
      cases st.scopes.ends with
      | nil => trivial
      | cons e es =>
          show ((last + 1 : Nat) : Int) ≤ close
          omega
  | noBody _ hlast => exact .inr (.inl (TokenStream.isChar_iff.mp hlast))
  | arrow h hlast =>
      rw [ScanContext.execute_cons, ctx.ends_execute fun c hc => .inr (h c hc)]
      have hlt : last < f.expressionEnd last :=
        TokenStream.lt_searchEnd (TokenStream.lt_size_of_kind (by simp [hlast]))
      refine .inl ?_
      rcases ctx.ends_openArrow (f.expressionEnd last) st with hopen | hopen
      · rw [hopen]
        cases st.scopes.ends with
        | nil => trivial
        | cons e es =>
            show ((last + 1 : Nat) : Int) ≤ f.expressionEnd last
            omega
      · rw [hopen]
        trivial

end StepEnds

/-! ## Between two steps -/

/-- What holds of the scopes when the next step is at `b`. -/
structure Timely (f : TokenStream) (b : Nat) (scopes : ScopeStack) : Prop where
  /-- A waiting switch waits for the end of a statement. -/
  pending : ∀ switch, scopes.pending = some switch →
    ∃ q < f.size, f.endsStatement q = false ∧ switch.effectiveAt = f.statementEnd q
  ends : ∀ e ∈ scopes.ends, e < 0 ∨ ∃ x : Nat, e = x ∧ f.EndsScope b x
  /-- When a switch falls due, the innermost scope is not over before. -/
  steady : ∀ switch, scopes.pending = some switch → switch.effectiveAt = b →
    ScopeStack.OpenAt b scopes.ends

theorem timely_start (f : TokenStream) : Timely f 0 ({} : ScanState).scopes where
  pending := by
    intro switch hswitch
    simp at hswitch
  ends := by
    intro e he
    obtain rfl : e = -1 := by simpa [ScopeStack.ends] using he
    exact .inl (by omega)
  steady := by
    intro switch hswitch
    simp at hswitch

/-- **Every step keeps the scopes timely.** -/
theorem Timely.after {ctx : ScanContext} (hf : ctx.file.WellNested) {i last : Nat} {st : ScanState}
    (h : Timely ctx.file.toTokenStream i st.scopes) (hlast : (ctx.plan i st).result = .ok last) :
    Timely ctx.file.toTokenStream (last + 1) (ctx.after i st).scopes := by
  rw [ctx.result_plan] at hlast
  have hle := ctx.le_of_dispatch hlast
  have hstep := ctx.dispatch_ends hf hlast
  rw [ctx.after_eq]
  have hends : ∀ e ∈ (ctx.arrive i st).scopes.ends,
      e < 0 ∨ ∃ x : Nat, e = x ∧ ctx.file.EndsScope i x :=
    fun e he => h.ends e (ctx.mem_ends_of_arrive he)
  have hpending : ∀ switch, (ctx.execute (ctx.dispatch (ctx.arrive i st).currentTypes i).commands
        (ctx.arrive i st)).scopes.pending = some switch →
      ∃ q < ctx.file.size, ctx.file.endsStatement q = false
        ∧ switch.effectiveAt = ctx.file.statementEnd q := by
    intro switch hswitch
    rcases ctx.pending_execute hstep.applySwitch_notMem hswitch with hbefore | ⟨t, e, hmem, rfl⟩
    · exact h.pending switch (ctx.pending_of_arrive hbefore)
    · obtain ⟨q, htrigger, _, rfl⟩ := ctx.schedule_mem_dispatch.mp hmem
      obtain ⟨hq, hnot⟩ := htrigger.endsStatement
      exact ⟨q, hq, hnot, rfl⟩
  refine ⟨hpending, fun e he => ?_, fun switch hswitch hdue => ?_⟩
  · rcases hstep.mem_ends ctx _ hf he with hbefore | ⟨x, hx, hend⟩
    · rcases hends e hbefore with hneg | ⟨x, hx, hend⟩
      · exact .inl hneg
      · exact .inr ⟨x, hx, hend.mono (by omega)⟩
    · exact .inr ⟨x, hx, hend⟩
  · rcases hstep.openAt ctx _ hf (ctx.openAt_arrive i st) hends with hopen | hstatement
    · exact hopen
    · -- a scope may be over behind the end of a statement, but no switch falls due there
      obtain ⟨q, hq, hnot, heq⟩ := hpending switch hswitch
      rw [heq] at hdue
      exact absurd (by exact_mod_cast hdue) (hf.statementEnd_ne_succ hq hnot hstatement)

end Unassigned
