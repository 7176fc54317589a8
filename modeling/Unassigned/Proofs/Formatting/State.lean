import Unassigned.Proofs.Formatting.Step
import Unassigned.Proofs.ScopeStep

/-!
# `Proofs.Formatting.State` — what a scan knows, in different layouts

A state of a scan of the code can be put into a layout: the tokens of variables, defects and triggers, the
ends of scopes and the consumed tokens get their places. **Performing a command commutes with the layout**
(`FormatsContext.perform`). A command compares places only with each other, and a layout keeps their order.
-/

namespace Unassigned

/-! ## States in a layout -/

/-- The end of a scope or statement in a layout; a negative number is no place. -/
def Layout.stop (l : Layout) (e : Int) : Int :=
  if e < 0 then e else l.place e.toNat

/-- A variable of the code in a layout. -/
def Variable.layOut (l : Layout) (v : Variable) : Variable :=
  { v with token := v.token.layOut l }

/-- What a name stands for, in a layout. -/
def Binding.layOut (l : Layout) : Binding → Binding
  | .own v => .own (v.layOut l)
  | .enclosing => .enclosing

/-- A scope of the code in a layout. -/
def Frame.layOut (l : Layout) (frame : Frame) : Frame :=
  { frame with
    endIndex := l.stop frame.endIndex
    bindings := frame.bindings.map (Prod.map id (Binding.layOut l)) }

/-- A waiting switch in a layout. -/
def PendingSwitch.layOut (l : Layout) (switch : PendingSwitch) : PendingSwitch :=
  ⟨switch.trigger.layOut l, l.stop switch.effectiveAt⟩

/-- The scopes around a place of the code in a layout. -/
def ScopeStack.layOut (l : Layout) (stack : ScopeStack) : ScopeStack :=
  ⟨stack.frames.map (Frame.layOut l), stack.pending.map (PendingSwitch.layOut l)⟩

/-- A defect of the code in a layout. -/
def Defect.layOut (l : Layout) (defect : Defect) : Defect :=
  { defect with token := defect.token.layOut l }

/-- What a scan of the code has found, in a layout. -/
def ScanState.layOut (l : Layout) (st : ScanState) : ScanState where
  scopes := st.scopes.layOut l
  defects := st.defects.map (Defect.layOut l)
  consumed := st.consumed.map l.place
  annotations := st.annotations
  annotationsEnd := st.annotationsEnd.map l.place

@[simp] theorem Token.layOut_text (l : Layout) (t : Token) : (t.layOut l).text = t.text := rfl

@[simp] theorem Layout.stop_natCast (l : Layout) (n : Nat) : l.stop n = l.place n := by
  unfold stop
  rw [if_neg (by omega), Int.toNat_natCast]

/-! ## Tables -/

namespace Ordered

variable {α β : Type} (g : α → β)

/-- A change of all values of a table keeps what is found. -/
theorem lookup_map (key : String) (table : List (String × α)) :
    (table.map (Prod.map id g)).lookup key = (table.lookup key).map g := by
  induction table with
  | nil => rfl
  | cons entry rest ih =>
      obtain ⟨k, v⟩ := entry
      rw [List.map_cons, Prod.map_apply, List.lookup_cons, List.lookup_cons, ih, id]
      cases key == k <;> rfl

/-- An entry is put where its key stands, whatever the values are. -/
theorem insert_map (key : String) (value : α) (table : List (String × α)) :
    insert key (g value) (table.map (Prod.map id g))
      = (insert key value table).map (Prod.map id g) := by
  induction table with
  | nil => rfl
  | cons entry rest ih =>
      obtain ⟨k, v⟩ := entry
      rw [List.map_cons, Prod.map_apply, insert, insert, ih, id]
      split <;> rfl

theorem hasKey_map (key : String) (table : List (String × α)) :
    hasKey key (table.map (Prod.map id g)) = hasKey key table := by
  unfold hasKey
  rw [List.any_map]
  rfl

theorem keys_map (table : List (String × α)) : keys (table.map (Prod.map id g)) = keys table := by
  unfold keys
  rw [List.map_map]
  rfl

end Ordered

/-! ## Scopes -/

section Scopes

variable (l : Layout)

theorem Frame.declares_layOut (frame : Frame) (name : String) :
    (frame.layOut l).declares name = frame.declares name :=
  Ordered.hasKey_map _ name frame.bindings

/-- A name stands for the same variable in every layout. -/
theorem Frame.lookup_layOut (frame : Frame) (name : String) :
    (frame.layOut l).bindings.lookup name = (frame.bindings.lookup name).map (Binding.layOut l) :=
  Ordered.lookup_map _ name frame.bindings

theorem Frame.insert_layOut (frame : Frame) (name : String) (v : Variable) :
    ({ frame.layOut l with
        bindings := Ordered.insert name (.own (v.layOut l)) (frame.layOut l).bindings } : Frame)
      = ({ frame with bindings := Ordered.insert name (.own v) frame.bindings } : Frame).layOut l := by
  have hbindings := Ordered.insert_map (Binding.layOut l) name (.own v) frame.bindings
  simp only [Binding.layOut] at hbindings
  simp only [Frame.layOut, hbindings]

theorem Frame.bind_layOut (frame : Frame) (v : Variable) :
    (frame.layOut l).bind (v.layOut l) = (frame.bind v).layOut l :=
  frame.insert_layOut l v.name v

/-- An arrow function takes over the scope around it in the layout of that scope. -/
theorem Frame.inner_layOut (frame : Frame) (stop : Nat) :
    (frame.layOut l).inner (l.place stop) = (frame.inner stop).layOut l := by
  unfold Frame.inner Frame.layOut
  simp only [Layout.stop_natCast, List.map_map]
  rfl

/-- Variables are found by their names, so the layout does not matter. -/
theorem findVariable?_layOut (name : String) (frames : List Frame) :
    findVariable? name (frames.map (Frame.layOut l))
      = (findVariable? name frames).map (Variable.layOut l) := by
  induction frames with
  | nil => rfl
  | cons frame below ih =>
      rw [List.map_cons, findVariable?, findVariable?, Frame.lookup_layOut]
      cases frame.bindings.lookup name with
      | none => rfl
      | some binding =>
          cases binding with
          | own v => rfl
          | enclosing => exact ih

variable {change change' : Variable → Variable}

theorem modifyVariable_layOut (hchange : ∀ v, change' (v.layOut l) = (change v).layOut l) (name : String)
    (frames : List Frame) :
    modifyVariable name change' (frames.map (Frame.layOut l))
      = (modifyVariable name change frames).map (Frame.layOut l) := by
  induction frames with
  | nil => rfl
  | cons frame below ih =>
      rw [List.map_cons, modifyVariable, modifyVariable, Frame.lookup_layOut]
      cases frame.bindings.lookup name with
      | none => rfl
      | some binding =>
          cases binding with
          | own v =>
              simp only [Option.map_some, Binding.layOut, hchange, List.map_cons]
              rw [Frame.insert_layOut]
          | enclosing => simp only [Option.map_some, Binding.layOut, ih, List.map_cons]

/-- A new variable gets its token in the layout. -/
theorem touchVariable_layOut (hchange : ∀ v, change (v.layOut l) = (change v).layOut l) (token : Token)
    (frames : List Frame) :
    touchVariable (token.layOut l) change (frames.map (Frame.layOut l))
      = (touchVariable token change frames).map (Frame.layOut l) := by
  cases frames with
  | nil => rfl
  | cons frame below =>
      rw [List.map_cons, touchVariable, touchVariable, Frame.declares_layOut, Token.layOut_text]
      split
      · exact modifyVariable_layOut l (fun v => hchange { v with token := token }) token.text
          (frame :: below)
      · rw [List.map_cons, ← Frame.bind_layOut, ← hchange]
        rfl

namespace ScopeStack

variable (stack : ScopeStack)

theorem depth_layOut : (stack.layOut l).depth = stack.depth :=
  List.length_map _

/-- Scopes are counted from the innermost one, in any layout. -/
theorem frame?_layOut (depth : Nat) :
    (stack.layOut l).frame? depth = (stack.frame? depth).map (Frame.layOut l) :=
  List.getElem?_map

/-- A layout leaves the modes as they are. -/
theorem modeAt_layOut (depth : Nat) : (stack.layOut l).modeAt depth = stack.modeAt depth := by
  unfold modeAt
  rw [frame?_layOut]
  cases stack.frame? depth <;> rfl

theorem declares_layOut (depth : Nat) (name : String) :
    (stack.layOut l).declares depth name = stack.declares depth name := by
  unfold declares
  rw [frame?_layOut]
  cases stack.frame? depth with
  | none => rfl
  | some frame => exact frame.declares_layOut l name

/-- The scopes above are the same, and those below change as in the code. -/
theorem modifyFrom_layOut (depth : Nat) {act act' : List Frame → List Frame}
    (hact : ∀ frames, act' (frames.map (Frame.layOut l)) = (act frames).map (Frame.layOut l)) :
    (stack.layOut l).modifyFrom depth act' = (stack.modifyFrom depth act).layOut l := by
  unfold modifyFrom layOut
  simp only [List.map_append, List.map_take, hact, ← List.map_drop]

theorem modifyTop_layOut {act act' : Frame → Frame}
    (hact : ∀ frame, act' (frame.layOut l) = (act frame).layOut l) :
    (stack.layOut l).modifyTop act' = (stack.modifyTop act).layOut l := by
  unfold modifyTop layOut
  cases stack.frames with
  | nil => rfl
  | cons frame below => simp only [List.map_cons, List.modifyHead_cons, hact]

theorem touch_layOut (hchange : ∀ v, change (v.layOut l) = (change v).layOut l) (depth : Nat)
    (token : Token) :
    (stack.layOut l).touch depth (token.layOut l) change = (stack.touch depth token change).layOut l :=
  stack.modifyFrom_layOut l depth fun frames => touchVariable_layOut l hchange token frames

end ScopeStack

end Scopes

/-! ## Ends of scopes and statements -/

namespace Layout.Formats

variable {l : Layout} {c f : TokenStream} (h : l.Formats c f)

include h

/-- **A scope is over at a place in both layouts or in none.** -/
theorem stop_le {e : Int} {i : Nat} : l.stop e ≤ l.place i ↔ e ≤ i := by
  unfold stop
  split
  · omega
  · have hle : l.place e.toNat ≤ l.place i ↔ e.toNat ≤ i := h.le_iff
    omega

/-- By induction on the scopes: each is over in both layouts or in none. -/
theorem dropFinishedFrames (i : Nat) (frames : List Frame) :
    ScopeStack.dropFinishedFrames (l.place i) (frames.map (Frame.layOut l))
      = (ScopeStack.dropFinishedFrames i frames).map (Frame.layOut l) := by
  fun_induction ScopeStack.dropFinishedFrames i frames with
  | case1 frame next rest hended ih =>
      have hplace : (frame.layOut l).endIndex ≤ l.place i := h.stop_le.mpr hended
      rw [List.map_cons, List.map_cons, ScopeStack.dropFinishedFrames, if_pos hplace, ← List.map_cons, ih]
  | case2 frame next rest hended =>
      have hplace : ¬ (frame.layOut l).endIndex ≤ l.place i := fun hle => hended (h.stop_le.mp hle)
      rw [List.map_cons, List.map_cons, ScopeStack.dropFinishedFrames, if_neg hplace]
  | case3 frames hshort =>
      rcases short_cases hshort with rfl | ⟨frame, rfl⟩
      · rfl
      · rfl

theorem dropFinished (i : Nat) (stack : ScopeStack) :
    (stack.layOut l).dropFinished (l.place i) = (stack.dropFinished i).layOut l := by
  unfold ScopeStack.dropFinished ScopeStack.layOut
  rw [h.dropFinishedFrames]

/-- A switch falls due at the same token. -/
theorem due? (i : Nat) (stack : ScopeStack) :
    (stack.layOut l).due? (l.place i) = (stack.due? i).map (PendingSwitch.layOut l) := by
  unfold ScopeStack.due? ScopeStack.layOut
  rw [Option.filter_map]
  simp only [Function.comp_def, PendingSwitch.layOut, h.stop_le]

/-- The same trigger takes effect, at the same token. -/
theorem applyPending (i : Nat) (stack : ScopeStack) : (stack.layOut l).applyPending (l.place i)
    = ((stack.applyPending i).1.layOut l, (stack.applyPending i).2.map (Token.layOut l)) := by
  unfold ScopeStack.applyPending
  rw [h.due?]
  cases stack.due? i with
  | none => rfl
  | some switch =>
      have hmode : ({ stack.layOut l with pending := none } : ScopeStack).modeAt 0
          = ({ stack with pending := none } : ScopeStack).modeAt 0 := stack.modeAt_layOut l 0
      simp only [Option.map_some]
      rw [hmode]
      cases ({ stack with pending := none } : ScopeStack).modeAt 0 with
      | relaxed => rfl
      | strict =>
          exact Prod.ext (ScopeStack.modifyTop_layOut l { stack with pending := none } fun _ => rfl) rfl

end Layout.Formats

/-! ## Commands -/

section States

variable (l : Layout) {change : Variable → Variable}

/-- What commutes with the layout of the scopes does so on the state. -/
theorem ScanState.onScopes_layOut {act act' : ScopeStack → ScopeStack} (st : ScanState)
    (hact : act' (st.scopes.layOut l) = (act st.scopes).layOut l) :
    (st.layOut l).onScopes act' = (st.onScopes act).layOut l := by
  unfold ScanState.onScopes ScanState.layOut
  rw [hact]

theorem ScanState.assignWith_layOut (hchange : ∀ v, change (v.layOut l) = (change v).layOut l) (depth : Nat)
    (token : Token) (st : ScanState) :
    (st.layOut l).assignWith depth (token.layOut l) change
      = (st.assignWith depth token change).layOut l :=
  st.onScopes_layOut l
    (st.scopes.touch_layOut l (fun v => hchange { v with status := .assigned }) depth token)

theorem ScanState.assign_layOut (depth : Nat) (token : Token) (st : ScanState) :
    (st.layOut l).assign depth (token.layOut l) = (st.assign depth token).layOut l :=
  st.assignWith_layOut l (by intro v; rfl) depth token

theorem ScanState.declare_layOut (depth : Nat) (token : Token) (st : ScanState) :
    (st.layOut l).declare depth (token.layOut l) = (st.declare depth token).layOut l := by
  have hdeclares : (st.layOut l).scopes.declares depth (token.layOut l).text
      = st.scopes.declares depth token.text := st.scopes.declares_layOut l depth token.text
  unfold ScanState.declare
  rw [hdeclares, ScanState.assign_layOut]
  split <;> rfl

theorem ScanState.currentTypes_layOut (st : ScanState) :
    (st.layOut l).currentTypes = st.currentTypes := by
  have hframe : (st.layOut l).scopes.frame? 0 = (st.scopes.frame? 0).map (Frame.layOut l) :=
    st.scopes.frame?_layOut l 0
  unfold ScanState.currentTypes
  rw [hframe]
  cases st.scopes.frame? 0 <;> rfl

/-- A mark is about the status of a variable, not about its token. -/
theorem Role.mark_layOut (role : Role) (v : Variable) :
    role.mark (v.layOut l) = (role.mark v).layOut l := by
  cases role <;> rfl

/-- Doc comments name variables and classes, not places. -/
theorem applyDocComment_layOut (token : Token) (st : ScanState) :
    ScanContext.applyDocComment (token.layOut l) (st.layOut l)
      = (ScanContext.applyDocComment token st).layOut l := by
  have hdeclare : ∀ st : ScanState,
      (if (st.layOut l).scopes.modeAt 0 == .relaxed then (st.layOut l).declare 0 (token.layOut l)
        else st.layOut l)
      = (if st.scopes.modeAt 0 == .relaxed then st.declare 0 token else st).layOut l := by
    intro st
    have hmode : (st.layOut l).scopes.modeAt 0 = st.scopes.modeAt 0 := st.scopes.modeAt_layOut l 0
    rw [hmode, ScanState.declare_layOut]
    split <;> rfl
  have hannotations : (st.layOut l).annotations.lookup (token.layOut l).text
      = st.annotations.lookup token.text := rfl
  unfold ScanContext.applyDocComment
  rw [hannotations]
  cases st.annotations.lookup token.text with
  | none => rfl
  | some type =>
      cases type with
      | none => exact hdeclare st
      | some type =>
          have hnote : (st.layOut l).onScopes (fun scopes => scopes.modifyTop fun frame =>
                frame.noteType token.text type)
              = (st.onScopes fun scopes => scopes.modifyTop fun frame =>
                frame.noteType token.text type).layOut l :=
            st.onScopes_layOut l (st.scopes.modifyTop_layOut l (by intro frame; rfl))
          simp only [Token.layOut_text, hnote]
          exact hdeclare _

end States

namespace Layout.FormatsContext

variable {l : Layout} {c f : ScanContext} (h : l.FormatsContext c f)

include h

/-- A defect is reported in both layouts or in none: the level does not see places. -/
theorem report (token : Token) (severity : Severity) (finding : Finding) (st : ScanState) :
    f.report (token.layOut l) severity finding (st.layOut l)
      = (c.report token severity finding st).layOut l := by
  unfold ScanContext.report
  rw [h.level]
  split <;> rfl

theorem isPredefined (st : ScanState) (depth : Nat) (name : String) :
    f.isPredefined (st.layOut l) depth name = c.isPredefined st depth name := by
  have hdepth : (st.layOut l).scopes.depth = st.scopes.depth := st.scopes.depth_layOut l
  unfold ScanContext.isPredefined
  rw [hdepth, h.knownGlobals]

/-- What is known is a matter of names and scopes. -/
theorem isKnown (st : ScanState) (depth : Nat) (name : String) :
    f.isKnown (st.layOut l) depth name = c.isKnown st depth name := by
  have hdeclares : (st.layOut l).scopes.declares depth name = st.scopes.declares depth name :=
    st.scopes.declares_layOut l depth name
  unfold ScanContext.isKnown
  rw [h.isPredefined, hdeclares]

/-- A read that the code reports is reported at its token in the layout. -/
theorem check (token : Token) (lenient : Bool) (depth : Nat) (create : Bool) (st : ScanState) :
    f.check (token.layOut l) lenient depth create (st.layOut l)
      = (c.check token lenient depth create st).layOut l := by
  have hdeclares : (st.layOut l).scopes.declares depth token.text = st.scopes.declares depth token.text :=
    st.scopes.declares_layOut l depth token.text
  have hmode : (st.layOut l).scopes.modeAt depth = st.scopes.modeAt depth := st.scopes.modeAt_layOut l depth
  unfold ScanContext.check
  rw [Token.layOut_text, h.isPredefined, hdeclares, hmode]
  split
  · rfl
  · split
    · exact st.onScopes_layOut l
        (st.scopes.modifyFrom_layOut l depth fun frames =>
          modifyVariable_layOut l (by intro v; rfl) token.text frames)
    · rw [h.report, h.report, ← apply_ite (ScanState.layOut l)]
      dsimp only
      cases create with
      | false => rfl
      | true => exact ScanState.assign_layOut l depth token _

theorem autovivify (token : Token) (finding : Finding) (st : ScanState) :
    f.autovivify (token.layOut l) finding (st.layOut l) = (c.autovivify token finding st).layOut l := by
  unfold ScanContext.autovivify
  rw [Token.layOut_text, h.isKnown]
  dsimp only
  split
  · exact st.assign_layOut l 0 token
  · rw [h.report, ScanState.assign_layOut]

theorem skipsReads (st : ScanState) : f.skipsReads (st.layOut l) = c.skipsReads st := by
  have hdepth : (st.layOut l).scopes.depth = st.scopes.depth := st.scopes.depth_layOut l
  unfold ScanContext.skipsReads
  rw [hdepth, h.checkFileScope]

/-- No two tokens get the same place. -/
theorem isConsumed (token : Token) (st : ScanState) :
    (st.layOut l).consumed.contains (token.layOut l).index = st.consumed.contains token.index := by
  rw [Bool.eq_iff_iff, List.contains_iff_mem, List.contains_iff_mem]
  exact List.mem_map_of_injective fun _ _ heq => h.file.inj.mp heq

theorem read (token : Token) (st : ScanState) :
    f.read (token.layOut l) (st.layOut l) = (c.read token st).layOut l := by
  unfold ScanContext.read
  rw [h.isConsumed, h.skipsReads, h.check]
  split <;> rfl

theorem standAlone (token : Token) (st : ScanState) :
    f.standAlone (token.layOut l) (st.layOut l) = (c.standAlone token st).layOut l := by
  unfold ScanContext.standAlone
  rw [h.report, ScanState.assign_layOut]

theorem applySwitch (i : Nat) (st : ScanState) :
    f.applySwitch (l.place i) (st.layOut l) = (c.applySwitch i st).layOut l := by
  have happly : (st.layOut l).scopes.applyPending (l.place i) = _ := h.file.applyPending i st.scopes
  unfold ScanContext.applySwitch
  rw [happly]
  obtain ⟨scopes, trigger⟩ := st.scopes.applyPending i
  cases trigger with
  | none => rfl
  | some t => exact h.report t .notice .relaxedMode { st with scopes }

/-- **Performing a command commutes with the layout.** -/
theorem perform (command : Command) (st : ScanState) :
    f.perform (command.layOut l) (st.layOut l) = (c.perform command st).layOut l := by
  have hmode : (st.layOut l).scopes.modeAt 0 = st.scopes.modeAt 0 := st.scopes.modeAt_layOut l 0
  unfold Command.layOut ScanContext.perform
  cases command with
  | applySwitch i => exact h.applySwitch i st
  | dropFinished i =>
      dsimp only
      refine st.onScopes_layOut l ?_
      exact h.file.dropFinished i st.scopes
  | forgetAnnotations i =>
      have hend : (st.layOut l).annotationsEnd.all (· < l.place i) = st.annotationsEnd.all (· < i) := by
        show (st.annotationsEnd.map l.place).all (· < l.place i) = _
        rw [Option.all_map]
        simp only [h.file.lt_iff]
      dsimp only
      rw [hend]
      split <;> rfl
  | annotate declared stop => rfl
  | applyDocComment token => exact applyDocComment_layOut l token st
  | read token => exact h.read token st
  | readLeniently token =>
      dsimp only
      rw [h.skipsReads, h.check]
      split <;> rfl
  | check token => exact h.check token false 0 true st
  | assign token role => exact st.assignWith_layOut l (role.mark_layOut l) 0 token
  | autovivify token finding => exact h.autovivify token finding st
  | coalesce token =>
      have hknown : f.isKnown (st.layOut l) 0 (token.layOut l).text = c.isKnown st 0 token.text :=
        h.isKnown st 0 token.text
      dsimp only
      rw [hknown, h.check, ScanState.assign_layOut]
      split <;> rfl
  | update token finding isAlone =>
      have hknown : f.isKnown (st.layOut l) 0 (token.layOut l).text = c.isKnown st 0 token.text :=
        h.isKnown st 0 token.text
      dsimp only
      rw [hknown, h.standAlone, h.read, h.autovivify]
      split
      · split <;> rfl
      · rfl
  | standAlone token => exact h.standAlone token st
  | declare token => exact st.declare_layOut l 0 token
  | test token =>
      dsimp only
      rw [hmode, ScanState.declare_layOut]
      split <;> rfl
  | consume i => rfl
  | schedule trigger stop =>
      dsimp only
      refine st.onScopes_layOut l ?_
      simp only [ScopeStack.schedule, ScopeStack.layOut, Option.map_some, PendingSwitch.layOut, stop_natCast]
  | rejectReference token => exact h.report token .error .nonVariableByReference st
  | openFunction =>
      dsimp only
      exact st.onScopes_layOut l (by rfl)
  | openArrow stop =>
      dsimp only
      refine st.onScopes_layOut l ?_
      rw [ScopeStack.frame?_layOut]
      cases st.scopes.frame? 0 with
      | none => rfl
      | some outer =>
          simp only [Option.map_some, Frame.inner_layOut]
          rfl
  | bindParameter token isRef =>
      dsimp only
      refine st.onScopes_layOut l ?_
      refine st.scopes.modifyTop_layOut l fun frame => ?_
      exact frame.bind_layOut l { token, status := .assigned, isRefParam := isRef }
  | checkOuter token => exact h.check token false 1 false st
  | declareOuter token => exact st.declare_layOut l 1 token
  | endAt stop =>
      dsimp only
      refine st.onScopes_layOut l ?_
      refine st.scopes.modifyTop_layOut l fun frame => ?_
      simp only [Frame.layOut, stop_natCast]
  | discard =>
      refine st.onScopes_layOut l ?_
      simp only [ScopeStack.pop, ScopeStack.layOut, List.map_tail]

theorem execute (commands : List Command) (st : ScanState) :
    f.execute (commands.map (Command.layOut l)) (st.layOut l) = (c.execute commands st).layOut l := by
  unfold ScanContext.execute
  induction commands generalizing st with
  | nil => rfl
  | cons command rest ih =>
      rw [List.map_cons, List.foldl_cons, List.foldl_cons, h.perform, ih]

end Layout.FormatsContext

end Unassigned
