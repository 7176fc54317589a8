import Unassigned.Proofs.ErrorToken
import Unassigned.Proofs.Formatting.State

/-!
# `Proofs.Formatting.Run` — scans in different layouts

The scan of a file takes a step at every token, white space and comments included; the scan of its code
takes a step at the significant ones only. The steps that the code does not have only arrive
(`scanFrom_gap`): they apply a switch or drop scopes that the next significant token would find due as well,
as `Timely` makes sure. So the two scans go through the same states, up to the layout, and come to the same
end (`FormatsContext.scan`).
-/

namespace Unassigned

/-! ## Arriving twice -/

namespace ScopeStack

variable {i j : Nat} {stack : ScopeStack}

theorem dropFinishedFrames_dropFinishedFrames (hij : i ≤ j) (frames : List Frame) :
    dropFinishedFrames j (dropFinishedFrames i frames) = dropFinishedFrames j frames := by
  fun_induction dropFinishedFrames i frames with
  | case1 frame next rest hended ih =>
      have hle : frame.endIndex ≤ j := by omega
      rw [ih, dropFinishedFrames, if_pos hle]
  | case2 => rfl
  | case3 => rfl

theorem dropFinishedFrames_of_openAt (hij : i < j) {frames : List Frame}
    (hopen : OpenAt j (frames.map Frame.endIndex)) : dropFinishedFrames i frames = frames := by
  match frames, hopen with
  | [], _ => rfl
  | [frame], _ => rfl
  | frame :: next :: rest, hopen =>
      have hle : (j : Int) ≤ frame.endIndex := hopen
      rw [dropFinishedFrames, if_neg (by omega)]

theorem applyPending_congr (h : stack.due? i = stack.due? j) : stack.applyPending i = stack.applyPending j := by
  unfold applyPending
  rw [h]

theorem applyPending_eq_of_not_due (h : stack.due? i = none) : stack.applyPending i = (stack, none) := by
  unfold applyPending
  rw [h]

/-- A switch that is due at a place is due at every later one. -/
theorem due?_of_le (hij : i ≤ j) {switch : PendingSwitch} (h : stack.due? i = some switch) :
    stack.due? j = some switch := by
  obtain ⟨hpending, hle⟩ := Option.filter_eq_some_iff.mp h
  refine Option.filter_eq_some_iff.mpr ⟨hpending, ?_⟩
  simp only [decide_eq_true_eq] at hle ⊢
  omega

end ScopeStack

namespace ScanContext

variable (ctx : ScanContext)
variable {i : Nat}

/-- The defects with the notice of a switch, if there is one. -/
def withNotice (trigger : Option Token) (defects : List Defect) : List Defect :=
  match trigger with
  | some t =>
      if Severity.notice.atLeast ctx.level then ⟨t, .notice, .relaxedMode⟩ :: defects else defects
  | none => defects

theorem applySwitch_eq (i : Nat) (st : ScanState) : ctx.applySwitch i st
    = { st with
        scopes := (st.scopes.applyPending i).1
        defects := ctx.withNotice (st.scopes.applyPending i).2 st.defects } := by
  unfold applySwitch withNotice
  obtain ⟨scopes, trigger⟩ := st.scopes.applyPending i
  cases trigger with
  | none => rfl
  | some t =>
      dsimp only [report]
      split <;> rfl

theorem arrive_eq (i : Nat) (st : ScanState) : ctx.arrive i st
    = { st with
        scopes := (st.scopes.applyPending i).1.dropFinished i
        defects := ctx.withNotice (st.scopes.applyPending i).2 st.defects
        annotations := if st.annotationsEnd.all (· < i) then [] else st.annotations } := by
  show ctx.perform (.forgetAnnotations i)
    (ctx.perform (.dropFinished i) (ctx.applySwitch i st)) = _
  rw [ctx.applySwitch_eq]
  dsimp only [perform, ScanState.onScopes]
  split <;> rfl

/-- **It does not matter to arrive somewhere before**, if no switch falls due between that could meet
    another scope. -/
theorem arrive_arrive {j : Nat} (hij : i ≤ j) {st : ScanState}
    (h : st.scopes.due? i = none → st.scopes.due? j ≠ none → st.scopes.dropFinished i = st.scopes) :
    ctx.arrive j (ctx.arrive i st) = ctx.arrive j st := by
  -- the annotations that are forgotten
  have hforget : (if st.annotationsEnd.all (· < j) then []
        else if st.annotationsEnd.all (· < i) then [] else st.annotations)
      = if st.annotationsEnd.all (· < j) then [] else st.annotations := by
    split
    · rfl
    next hj =>
      rw [if_neg]
      intro hi
      refine hj ?_
      cases hend : st.annotationsEnd with
      | none => rfl
      | some e =>
          simp only [hend, Option.all_some, decide_eq_true_eq] at hi ⊢
          omega
  have hdrop : ∀ stack : ScopeStack, (stack.dropFinished i).dropFinished j = stack.dropFinished j :=
    fun stack => by
      simp only [ScopeStack.dropFinished, ScopeStack.dropFinishedFrames_dropFinishedFrames hij]
  rw [ctx.arrive_eq j, ctx.arrive_eq i, ctx.arrive_eq j]
  dsimp only
  rw [hforget]
  cases hi : st.scopes.due? i with
  | some switch =>
      -- the switch is applied at `i`, to the scope that it would find at `j`
      obtain ⟨hpending, hle⟩ := Option.filter_eq_some_iff.mp hi
      have happlied := ScopeStack.pending_applyPending_of_due hpending (by simpa using hle)
      have hnone : ((st.scopes.applyPending i).1.dropFinished i).due? j = none := by
        rw [ScopeStack.due?, ScopeStack.dropFinished, happlied]
        rfl
      rw [ScopeStack.applyPending_eq_of_not_due hnone, hdrop,
        ScopeStack.applyPending_congr (hi.trans (ScopeStack.due?_of_le hij hi).symm)]
      rfl
  | none =>
      rw [ScopeStack.applyPending_eq_of_not_due hi]
      dsimp only [withNotice]
      cases hj : st.scopes.due? j with
      | none =>
          have hnone : (st.scopes.dropFinished i).due? j = none := hj
          rw [ScopeStack.applyPending_eq_of_not_due hnone, ScopeStack.applyPending_eq_of_not_due hj, hdrop]
      | some switch => rw [h hi (by simp [hj])]

/-! ## White space and comments -/

/-- Of the scopes nothing is over before `j`, if a switch falls due there; `i` is the first place that is
    looked at. -/
def Settled (i j : Nat) (scopes : ScopeStack) : Prop :=
  ∀ switch, scopes.pending = some switch →
    switch.effectiveAt < i ∨ j < switch.effectiveAt ∨ ScopeStack.OpenAt j scopes.ends

theorem Settled.dropFinished {i j : Nat} {scopes : ScopeStack} (h : Settled i j scopes) (hij : i < j)
    (hi : scopes.due? i = none) (hj : scopes.due? j ≠ none) : scopes.dropFinished i = scopes := by
  obtain ⟨switch, hswitch⟩ := Option.ne_none_iff_exists'.mp hj
  obtain ⟨hpending, hdue⟩ := Option.filter_eq_some_iff.mp hswitch
  have hnot : ¬ switch.effectiveAt ≤ i := by
    intro hle
    have : scopes.due? i = some switch := Option.filter_eq_some_iff.mpr ⟨hpending, by simpa using hle⟩
    rw [hi] at this
    simp at this
  simp only [decide_eq_true_eq] at hdue
  rcases h switch hpending with hlt | hlt | hopen
  · omega
  · omega
  · rw [ScopeStack.dropFinished, ScopeStack.dropFinishedFrames_of_openAt hij hopen]

theorem Settled.arrive {i j : Nat} {st : ScanState} (h : Settled i j st.scopes) (hij : i < j) :
    Settled (i + 1) j (ctx.arrive i st).scopes := by
  intro switch hswitch
  have hbefore := ctx.pending_of_arrive hswitch
  rcases h switch hbefore with hlt | hlt | hopen
  · exact .inl (by omega)
  · exact .inr (.inl hlt)
  · refine .inr (.inr ?_)
    rw [ctx.arrive_scopes]
    rw [← st.scopes.ends_applyPending i] at hopen
    rwa [ScopeStack.dropFinished, ScopeStack.dropFinishedFrames_of_openAt hij hopen]

variable {ctx}

theorem dispatch_of_trivial {types : List (String × String)} (htrivial : (ctx.file.token i).isTrivial)
    (hdoc : ctx.file.kind i ≠ .docComment) : ctx.dispatch types i = .stay [] i := by
  have hkind : (ctx.file.kind i).isTrivial := htrivial
  unfold dispatch
  dsimp only
  revert hkind hdoc
  cases ctx.file.kind i <;> simp [Kind.isTrivial]

/-- A step at white space or a comment only arrives. -/
theorem scanFrom_of_trivial (hi : i < ctx.file.size) (htrivial : (ctx.file.token i).isTrivial)
    (hdoc : ctx.file.kind i ≠ .docComment) (st : ScanState) :
    ctx.scanFrom i st = ctx.scanFrom (i + 1) (ctx.arrive i st) := by
  have hlast : (ctx.plan i st).result = .ok i := by
    rw [ctx.result_plan, dispatch_of_trivial htrivial hdoc]
    rfl
  rw [ctx.scanFrom_of_ok hi hlast, ctx.after_eq, dispatch_of_trivial htrivial hdoc]
  rfl

/-- A scan goes on from what it finds on arrival. -/
theorem scanFrom_congr (hi : i < ctx.file.size) {st st' : ScanState} (h : ctx.arrive i st = ctx.arrive i st') :
    ctx.scanFrom i st = ctx.scanFrom i st' := by
  have hresult : (ctx.plan i st).result = (ctx.plan i st').result := by
    rw [ctx.result_plan, ctx.result_plan, h]
  have hafter : ctx.after i st = ctx.after i st' := by
    rw [ctx.after_eq, ctx.after_eq, h]
  cases hlast : (ctx.plan i st').result with
  | error e => rw [ctx.scanFrom_of_error hi (hresult.trans hlast), ctx.scanFrom_of_error hi hlast]
  | ok last => rw [ctx.scanFrom_of_ok hi (hresult.trans hlast), ctx.scanFrom_of_ok hi hlast, hafter]

/-- **The steps between two significant tokens make no difference.** -/
theorem scanFrom_gap {i j : Nat} (hij : i ≤ j) (hj : j < ctx.file.size)
    (htrivial : ∀ m, i ≤ m → m < j → (ctx.file.token m).isTrivial = true)
    (hdoc : ∀ m, ctx.file.kind m ≠ .docComment) {st : ScanState} (h : Settled i j st.scopes) :
    ctx.scanFrom i st = ctx.scanFrom j st := by
  -- one step after the other, from the first token of the gap on
  by_cases hlt : i < j
  · have hnext := scanFrom_gap hlt hj (fun m hm hmj => htrivial m (by omega) hmj) hdoc (h.arrive ctx hlt)
    rw [scanFrom_of_trivial (by omega) (htrivial i (Nat.le_refl i) hlt) (hdoc i), hnext]
    exact scanFrom_congr hj (ctx.arrive_arrive hij (h.dropFinished hlt))
  · obtain rfl : i = j := by omega
    rfl
termination_by j - i

end ScanContext

/-! ## The two scans -/

/-- What comes out of a scan of the code, in a layout. -/
def ScanResult.layOut (l : Layout) (result : ScanResult ScanState) : ScanResult ScanState :=
  (result.map (ScanState.layOut l)).mapError (ScanError.layOut l)

theorem ScopeStack.fileVariables_layOut (l : Layout) (scopes : ScopeStack) :
    (scopes.layOut l).fileVariables = scopes.fileVariables.map (Variable.layOut l) := by
  have hframes : (scopes.layOut l).frames.drop ((scopes.layOut l).depth - 1)
      = (scopes.frames.drop (scopes.depth - 1)).map (Frame.layOut l) := by
    rw [ScopeStack.depth_layOut, List.map_drop]
    rfl
  unfold ScopeStack.fileVariables
  rw [hframes]
  cases hfile : scopes.frames.drop (scopes.depth - 1) with
  | nil => rfl
  | cons frame below =>
      have hnames : (frame.layOut l).names = frame.names := Ordered.keys_map _ frame.bindings
      have hfind := fun name => findVariable?_layOut l name (frame :: below)
      rw [List.map_cons] at hfind ⊢
      simp only [variablesOf, hnames, hfind, List.map_filterMap]

namespace Layout.FormatsContext

variable {l : Layout} {c f : ScanContext} (h : l.FormatsContext c f)

include h

theorem arrive (i : Nat) (st : ScanState) :
    f.arrive (l.place i) (st.layOut l) = (c.arrive i st).layOut l :=
  h.execute (arrival i) st

theorem plan (i : Nat) (st : ScanState) :
    f.plan (l.place i) (st.layOut l) = (c.plan i st).layOut l l.place := by
  unfold ScanContext.plan
  refine Plan.layOut_emitAll_bind (show arrival (l.place i) = (arrival i).map (Command.layOut l) from rfl) ?_
  rw [h.arrive, ScanState.currentTypes_layOut, h.dispatch]

theorem after (i : Nat) (st : ScanState) :
    f.after (l.place i) (st.layOut l) = (c.after i st).layOut l := by
  unfold ScanContext.after
  rw [h.plan]
  exact h.execute (c.plan i st).commands st

theorem openAt_place {b : Nat} {scopes : ScopeStack} (hopen : ScopeStack.OpenAt b scopes.ends) :
    ScopeStack.OpenAt (l.place b) (scopes.layOut l).ends := by
  have hends : (scopes.layOut l).ends = scopes.ends.map l.stop := by
    unfold ScopeStack.ends ScopeStack.layOut
    rw [List.map_map, List.map_map]
    rfl
  rw [hends]
  match scopes.ends, hopen with
  | [], _ | [_], _ => trivial
  | e :: _ :: _, hopen =>
      have hle : (b : Int) ≤ e := hopen
      obtain ⟨x, rfl⟩ : ∃ x : Nat, e = x := ⟨e.toNat, by omega⟩
      have hplace : l.place b ≤ l.place x := h.file.le_iff.mpr (by omega)
      show (l.place b : Int) ≤ l.stop x
      rw [stop_natCast]
      omega

/-- Between the tokens `a` and `a + 1` of the code nothing falls due. -/
theorem settled {a : Nat} {scopes : ScopeStack} (ht : Timely c.file.toTokenStream (a + 1) scopes) :
    ScanContext.Settled (l.place a + 1) (l.place (a + 1)) (scopes.layOut l) := by
  intro switch hswitch
  obtain ⟨s, hs, rfl⟩ := Option.map_eq_some_iff.mp hswitch
  obtain ⟨q, _, _, heq⟩ := ht.pending s hs
  have hstop : (s.layOut l).effectiveAt = l.place (c.file.statementEnd q) := by
    show l.stop s.effectiveAt = _
    rw [heq, stop_natCast]
  rw [hstop]
  rcases Nat.lt_trichotomy (c.file.statementEnd q) (a + 1) with hlt | hdue | hlt
  · have := h.file.le_iff.mpr (Nat.le_of_lt_succ hlt)
    exact .inl (by omega)
  · exact .inr (.inr (h.openAt_place (ht.steady s hs (by rw [heq, hdue]))))
  · have := h.file.mono hlt
    exact .inr (.inl (by omega))

/-! ### The end of the file -/

theorem finish {st : ScanState}
    (hone : (st.onScopes fun scopes => scopes.dropFinished c.file.size).scopes.depth = 1) :
    f.finish (st.layOut l) = (c.finish st).layOut l := by
  have hdrop : (st.layOut l).onScopes (fun scopes => scopes.dropFinished f.file.size)
      = (st.onScopes fun scopes => scopes.dropFinished c.file.size).layOut l := by
    rw [← h.file.size]
    exact h.perform (.dropFinished c.file.size) st
  unfold ScanContext.finish
  rw [hdrop]
  revert hone
  generalize st.onScopes (fun scopes => scopes.dropFinished c.file.size) = last
  intro hone
  have hone' : (last.layOut l).scopes.depth = 1 := by
    rw [← hone]
    exact last.scopes.depth_layOut l
  have hvariables : (last.layOut l).scopes.fileVariables
      = last.scopes.fileVariables.map (Variable.layOut l) := last.scopes.fileVariables_layOut l
  dsimp only
  rw [if_pos hone, if_pos hone', hvariables, List.filter_map, List.foldl_map]
  -- one notice after the other
  suffices hnotices : ∀ (vs : List Variable) (st : ScanState),
      vs.foldl (fun st v => f.report (v.layOut l).token .notice .valueNotUsed st) (st.layOut l)
        = (vs.foldl (fun st v => c.report v.token .notice .valueNotUsed st) st).layOut l from
    congrArg Except.ok (hnotices _ last)
  intro vs
  induction vs with
  | nil => exact fun st => rfl
  | cons v rest ih =>
      intro st
      rw [List.foldl_cons, List.foldl_cons, ← ih]
      congr 1
      exact h.report v.token .notice .valueNotUsed st

/-- A file that ends with a significant token ends where its code ends. -/
theorem place_last (hend : (f.file.token (f.file.size - 1)).isTrivial = false) (hsize : 0 < f.file.size) :
    0 < c.file.size ∧ l.place (c.file.size - 1) + 1 = f.file.size := by
  obtain ⟨k, hk⟩ := h.file.onto _ hend
  have hlast := h.file.size
  have hlt : k < c.file.size := h.file.lt_iff.mp (by omega)
  have hnext : l.place k < l.place (k + 1) := h.file.mono (Nat.lt_succ_self k)
  have hle : c.file.size ≤ k + 1 := h.file.le_iff.mp (by omega)
  obtain rfl : k = c.file.size - 1 := by omega
  exact ⟨by omega, by omega⟩

variable (hf : c.file.WellNested) (hdoc : ∀ m, f.file.kind m ≠ .docComment)
  (hend : (f.file.token (f.file.size - 1)).isTrivial = false) (hsize : 0 < f.file.size)

include hf hdoc hend hsize

theorem scanFrom {k : Nat} {st : ScanState} (ht : Timely c.file.toTokenStream k st.scopes)
    (hk : k ≤ c.file.size) :
    f.scanFrom (l.place k) (st.layOut l) = (c.scanFrom k st).layOut l := by
  by_cases hlt : k < c.file.size
  · have hplace : l.place k < f.file.size := by rw [← h.file.size]; exact h.file.mono hlt
    have hplan : (f.plan (l.place k) (st.layOut l)).result
        = ((c.plan k st).result.map l.place).mapError (ScanError.layOut l) := by
      rw [h.plan]
      rfl
    cases hlast : (c.plan k st).result with
    | error e =>
        rw [hlast] at hplan
        rw [f.scanFrom_of_error hplace hplan, c.scanFrom_of_error hlt hlast]
        rfl
    | ok last =>
        rw [hlast] at hplan
        have hle := c.le_of_plan hlast
        have hlast_lt : last < c.file.size := by
          rw [c.result_plan] at hlast
          exact (c.dispatch_ends hf hlast).lt_size hf hlt
        have ht' := ht.after hf hlast
        rw [f.scanFrom_of_ok hplace hplan, c.scanFrom_of_ok hlt hlast, h.after]
        rw [← scanFrom ht' hlast_lt]
        -- up to the next token of the code, if there is one
        by_cases hmore : last + 1 < c.file.size
        · refine ScanContext.scanFrom_gap (h.file.mono (Nat.lt_succ_self last)) ?_ ?_ hdoc (h.settled ht')
          · rw [← h.file.size]
            exact h.file.mono hmore
          · exact fun m hm hmj => h.file.isTrivial_between hm hmj
        · obtain rfl : last = c.file.size - 1 := by omega
          rw [(h.place_last hend hsize).2, ← h.file.size]
          congr 2
          omega
  · obtain rfl : k = c.file.size := by omega
    rw [c.scanFrom_of_le st (Nat.le_refl _), h.file.size, f.scanFrom_of_le _ (Nat.le_refl _)]
    rfl
termination_by c.file.size - k

/-- **The scan of a file is the scan of its code**, in the layout of the file. -/
theorem scan : f.scan = c.scan.layOut l := by
  obtain ⟨hpos, _⟩ := h.place_last hend hsize
  have hstart : f.scanFrom 0 {} = f.scanFrom (l.place 0) {} := by
    refine ScanContext.scanFrom_gap (Nat.zero_le _) ?_ (fun m _ hm => h.file.isTrivial_before hm) hdoc ?_
    · rw [← h.file.size]
      exact h.file.mono hpos
    · intro switch hswitch
      simp at hswitch
  have hempty : (({} : ScanState).layOut l) = {} := rfl
  have hrun := h.scanFrom hf hdoc hend hsize (timely_start c.file.toTokenStream) (Nat.zero_le _)
  rw [hempty] at hrun
  unfold ScanContext.scan
  rw [hstart, hrun]
  cases hscan : c.scanFrom 0 {} with
  | error e => rfl
  | ok st => exact h.finish (c.depth_at_end hf hscan)

theorem defects : f.defects
    = (c.defects.map (List.map (Defect.layOut l))).mapError (ScanError.layOut l) := by
  unfold ScanContext.defects
  rw [h.scan hf hdoc hend hsize]
  cases c.scan with
  | error e => rfl
  | ok st => exact congrArg Except.ok (List.map_reverse ..).symm

end Layout.FormatsContext

end Unassigned
