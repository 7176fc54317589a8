import Mathlib.Data.List.Forall2
import Mathlib.Logic.Relation
import Unassigned.Proofs.PlanShape

/-!
# `Proofs.ScopeStep` — what a command does to the stack of scopes

A command opens a scope, gives one its end, drops scopes, sets or applies the waiting switch, or does none of
these and lets the frames **grow**: each keeps its mode and its end, and only gains names. `perform_scopes` is
the inversion lemma that says so; invariants about scopes split a command by it. What the commands of the last
sort do to single variables is said by `perform_steps`: they change what a name stands for, or bind a name,
and start at the innermost frame or at the one around it (`Command.reach`).

A frame is told from the others by its **height**, the number of frames below it, which stays the same as long
as the frame is on the stack. No command both drops and opens, so a frame that is on the stack at all moments
between two moments is one and the same.
-/

namespace Unassigned

/-! ## Frames that grow -/

/-- No name of the frame stands for a variable of the frame below. -/
def Frame.OwnsAll (frame : Frame) : Prop :=
  ∀ name, frame.bindings.lookup name ≠ some .enclosing

/-- A frame after variables were added to it, or variables in it changed. -/
structure Frame.Grows (old new : Frame) : Prop where
  names : old.names <+: new.names
  mode : new.mode = old.mode
  endIndex : new.endIndex = old.endIndex
  ownsAll : old.OwnsAll → new.OwnsAll

namespace Frame

theorem Grows.refl (frame : Frame) : frame.Grows frame :=
  ⟨List.prefix_rfl, rfl, rfl, id⟩

theorem Grows.trans {a b c : Frame} (hab : a.Grows b) (hbc : b.Grows c) : a.Grows c :=
  ⟨hab.names.trans hbc.names, hbc.mode.trans hab.mode, hbc.endIndex.trans hab.endIndex,
    fun h => hbc.ownsAll (hab.ownsAll h)⟩

theorem declares_iff (frame : Frame) (name : String) : frame.declares name ↔ name ∈ frame.names := by
  simp [declares, Ordered.hasKey, names, Ordered.keys]

theorem names_insert (frame : Frame) (name : String) (binding : Binding) :
    ({ frame with bindings := Ordered.insert name binding frame.bindings } : Frame).names
      = if name ∈ frame.names then frame.names else frame.names ++ [name] :=
  Ordered.keys_insert name binding frame.bindings

theorem ownsAll_of_nil {frame : Frame} (h : frame.bindings = []) : frame.OwnsAll := by
  intro name
  simp [h]

theorem OwnsAll.insert {frame : Frame} (h : frame.OwnsAll) (name : String) (v : Variable) :
    OwnsAll { frame with bindings := Ordered.insert name (.own v) frame.bindings } := by
  intro other
  by_cases hother : other = name
  · subst hother
    simp [Ordered.lookup_insert_self]
  · show (Ordered.insert name (.own v) frame.bindings).lookup other ≠ some .enclosing
    rw [Ordered.lookup_insert_of_ne hother]
    exact h other

/-- Binding a name keeps the others. -/
theorem grows_insert (frame : Frame) (name : String) (v : Variable) :
    frame.Grows { frame with bindings := Ordered.insert name (.own v) frame.bindings } := by
  refine ⟨?_, rfl, rfl, fun h => h.insert name v⟩
  rw [names_insert]
  split
  · exact List.prefix_rfl
  · exact List.prefix_append _ _

theorem grows_noteType (frame : Frame) (name type : String) :
    frame.Grows (frame.noteType name type) :=
  ⟨List.prefix_rfl, rfl, rfl, id⟩

theorem mem_names_bind (frame : Frame) (v : Variable) : v.name ∈ (frame.bind v).names := by
  rw [bind, names_insert]
  split
  next h => exact h
  next => simp

end Frame

theorem forall₂_trans {α : Type} {R : α → α → Prop} {as bs cs : List α} (hab : List.Forall₂ R as bs)
    (hbc : List.Forall₂ R bs cs) (htrans : ∀ a b c, R a b → R b c → R a c) : List.Forall₂ R as cs := by
  induction hab generalizing cs with
  | nil => exact hbc
  | cons h _ ih =>
      cases hbc with
      | cons h' hrest => exact .cons (htrans _ _ _ h h') (ih hrest)

/-- Frame by frame, the frames grew. -/
abbrev FramesGrow (old new : List Frame) : Prop :=
  List.Forall₂ Frame.Grows old new

namespace FramesGrow

theorem refl (frames : List Frame) : FramesGrow frames frames :=
  List.forall₂_same.mpr fun frame _ => Frame.Grows.refl frame

theorem trans {a b c : List Frame} (hab : FramesGrow a b) (hbc : FramesGrow b c) : FramesGrow a c :=
  forall₂_trans hab hbc fun _ _ _ => Frame.Grows.trans

theorem modifyHead {change : Frame → Frame} (h : ∀ frame : Frame, frame.Grows (change frame))
    (frames : List Frame) : FramesGrow frames (frames.modifyHead change) := by
  cases frames with
  | nil => exact .nil
  | cons frame below => exact .cons (h frame) (refl below)

end FramesGrow

theorem modifyVariable_grow (name : String) (change : Variable → Variable) (frames : List Frame) :
    FramesGrow frames (modifyVariable name change frames) := by
  fun_induction modifyVariable name change frames with
  | case1 => exact .nil
  | case2 frame below v h => exact .cons (frame.grows_insert _ _) (FramesGrow.refl below)
  | case3 frame below h ih => exact .cons (.refl frame) ih
  | case4 frame below h => exact FramesGrow.refl _

theorem touchVariable_grow (token : Token) (change : Variable → Variable) (frames : List Frame) :
    FramesGrow frames (touchVariable token change frames) := by
  fun_cases touchVariable token change frames with
  | case1 => exact .nil
  | case2 frame below h => exact modifyVariable_grow _ _ _
  | case3 frame below h => exact .cons (frame.grows_insert _ _) (FramesGrow.refl below)

variable {frames : List Frame}

/-- A variable that is touched is known afterwards, whatever is changed about it. -/
theorem declares_touchVariable {token : Token} {change : Variable → Variable}
    (hchange : ∀ v, (change v).token = v.token) (hne : frames ≠ []) :
    ∃ frame, (touchVariable token change frames)[0]? = some frame ∧ token.text ∈ frame.names := by
  cases frames with
  | nil => exact absurd rfl hne
  | cons frame below =>
      rw [touchVariable]
      split
      next h =>
        have hgrow := modifyVariable_grow token.text
          (fun v => change { v with token := token }) (frame :: below)
        obtain ⟨frame', below', hframe, _, heq⟩ := List.forall₂_cons_left_iff.mp hgrow
        rw [heq]
        exact ⟨frame', rfl, hframe.names.subset ((frame.declares_iff _).mp h)⟩
      next h =>
        refine ⟨_, rfl, ?_⟩
        have hname : (change { token := token }).name = token.text := by
          rw [Variable.name, hchange]
        rw [← hname]
        exact frame.mem_names_bind _

theorem Role.mark_token (role : Role) (v : Variable) : (role.mark v).token = v.token := by
  cases role <;> rfl

theorem ScopeStack.modifyFrom_grow {change : List Frame → List Frame}
    (h : ∀ frames, FramesGrow frames (change frames)) (depth : Nat) (stack : ScopeStack) :
    FramesGrow stack.frames (stack.modifyFrom depth change).frames := by
  have happend : FramesGrow (stack.frames.take depth ++ stack.frames.drop depth)
      (stack.modifyFrom depth change).frames :=
    List.rel_append (FramesGrow.refl (stack.frames.take depth)) (h (stack.frames.drop depth))
  rwa [List.take_append_drop] at happend

/-- Where no frame can be dropped, there is one at most. -/
theorem short_cases (h : ∀ frame next rest, frames = frame :: next :: rest → False) :
    frames = [] ∨ ∃ frame, frames = [frame] := by
  match frames, h with
  | [], _ => exact .inl rfl
  | [frame], _ => exact .inr ⟨frame, rfl⟩
  | frame :: next :: rest, h => exact (h frame next rest rfl).elim

/-- Ended frames are dropped from the innermost outwards. -/
theorem dropFinishedFrames_suffix (i : Nat) (frames : List Frame) :
    ScopeStack.dropFinishedFrames i frames <:+ frames := by
  fun_induction ScopeStack.dropFinishedFrames i frames with
  | case1 frame next rest h ih => exact ih.trans (List.suffix_cons _ _)
  | case2 => exact List.suffix_rfl
  | case3 => exact List.suffix_rfl

/-- The file scope stays. -/
theorem dropFinishedFrames_ne_nil (i : Nat) (h : frames ≠ []) : ScopeStack.dropFinishedFrames i frames ≠ [] := by
  fun_induction ScopeStack.dropFinishedFrames i frames with
  | case1 frame next rest _ ih => exact ih (by simp)
  | case2 => simp
  | case3 => exact h

/-! ## Commands -/

/-- What a command does to the stack of scopes. -/
inductive ScopeStep : Command → ScopeStack → ScopeStack → Prop where
  | grow {c : Command} {old new : ScopeStack} (frames : FramesGrow old.frames new.frames)
      (pending : new.pending = old.pending) : ScopeStep c old new
  | schedule {old : ScopeStack} (trigger : Token) (effectiveAt : Nat) :
      ScopeStep (.schedule trigger effectiveAt) old (old.schedule trigger effectiveAt)
  | switch {old : ScopeStack} (i : Nat) : ScopeStep (.applySwitch i) old (old.applyPending i).1
  | drop {old : ScopeStack} (i : Nat) : ScopeStep (.dropFinished i) old (old.dropFinished i)
  | openFunction {old : ScopeStack} : ScopeStep .openFunction old (old.push { mode := .strict })
  | openArrow {old : ScopeStack} (endIndex : Nat) {outer : Frame} (h : old.frame? 0 = some outer) :
      ScopeStep (.openArrow endIndex) old (old.push (outer.inner endIndex))
  | endAt {old : ScopeStack} (endIndex : Nat) :
      ScopeStep (.endAt endIndex) old
        (old.modifyTop fun frame => { frame with endIndex := endIndex })
  | discard {old : ScopeStack} : ScopeStep .discard old old.pop

/-- A change of what a name stands for at a level, which leaves the occurrence as it is or makes it the token's, or
    of what the innermost frame binds or notes. -/
inductive VariableStep (level : Nat) (scopes : ScopeStack) : ScopeStack → Prop where
  | modify (name : String) (change : Variable → Variable) (htoken : ∀ v, (change v).token = v.token) :
      VariableStep level scopes (scopes.modifyVar level name change)
  | touch (token : Token) (change : Variable → Variable) (htoken : ∀ v, (change v).token = v.token) :
      VariableStep level scopes (scopes.touch level token change)
  | bind (v : Variable) : VariableStep level scopes (scopes.modifyTop fun frame => frame.bind v)
  | noteType (name type : String) :
      VariableStep level scopes (scopes.modifyTop fun frame => frame.noteType name type)

/-- Such changes, one after the other. -/
abbrev VariableSteps (level : Nat) : ScopeStack → ScopeStack → Prop :=
  Relation.ReflTransGen (VariableStep level)

theorem VariableStep.grow {level : Nat} {old new : ScopeStack} (h : VariableStep level old new) :
    FramesGrow old.frames new.frames ∧ new.pending = old.pending := by
  cases h with
  | modify name change _ => exact ⟨old.modifyFrom_grow (modifyVariable_grow name change) level, rfl⟩
  | touch token change _ => exact ⟨old.modifyFrom_grow (touchVariable_grow token change) level, rfl⟩
  | bind v => exact ⟨FramesGrow.modifyHead (fun frame => frame.grows_insert _ _) _, rfl⟩
  | noteType name type => exact ⟨FramesGrow.modifyHead (fun frame => frame.grows_noteType name type) _, rfl⟩

theorem VariableSteps.grow {level : Nat} {old new : ScopeStack} (h : VariableSteps level old new) :
    FramesGrow old.frames new.frames ∧ new.pending = old.pending := by
  induction h with
  | refl => exact ⟨.refl _, rfl⟩
  | tail _ hstep ih => exact ⟨ih.1.trans hstep.grow.1, hstep.grow.2.trans ih.2⟩

theorem ScopeStep.same {c : Command} {scopes : ScopeStack} : ScopeStep c scopes scopes :=
  .grow (.refl _) rfl

/-- How many levels around the innermost scope a command refers to. The last frame is never discarded. -/
def Command.reach : Command → Nat
  | .checkOuter _ | .declareOuter _ | .discard => 1
  | _ => 0

namespace ScanContext

variable (ctx : ScanContext)

@[simp] theorem report_scopes (token : Token) (severity : Severity) (finding : Finding)
    (st : ScanState) : (ctx.report token severity finding st).scopes = st.scopes := by
  unfold report
  split <;> rfl

theorem assignWith_steps (depth : Nat) (token : Token) {change : Variable → Variable}
    (htoken : ∀ v, (change v).token = v.token) (st : ScanState) :
    VariableSteps depth st.scopes (st.assignWith depth token change).scopes :=
  .single (.touch token _ fun _ => htoken _)

theorem assign_steps (depth : Nat) (token : Token) (st : ScanState) :
    VariableSteps depth st.scopes (st.assign depth token).scopes :=
  assignWith_steps depth token (fun _ => rfl) st

theorem declare_steps (depth : Nat) (token : Token) (st : ScanState) :
    VariableSteps depth st.scopes (st.declare depth token).scopes := by
  unfold ScanState.declare
  split
  · exact .refl
  · exact assign_steps depth token st

theorem check_steps (token : Token) (lenient : Bool) (depth : Nat) (create : Bool) (st : ScanState) :
    VariableSteps depth st.scopes (ctx.check token lenient depth create st).scopes := by
  unfold check
  split
  · exact .refl
  · split
    · exact .single (.modify _ _ fun _ => rfl)
    · have hreport : ∀ reported : ScanState, reported.scopes = st.scopes →
          VariableSteps depth st.scopes (if create then reported.assign depth token else reported).scopes := by
        intro reported heq
        rw [← heq]
        cases create with
        | true => exact assign_steps depth token reported
        | false => exact .refl
      apply hreport
      split <;> simp

theorem read_steps (token : Token) (st : ScanState) :
    VariableSteps 0 st.scopes (ctx.read token st).scopes := by
  unfold read
  split
  · exact .refl
  · exact ctx.check_steps _ _ _ _ st

theorem autovivify_steps (token : Token) (finding : Finding) (st : ScanState) :
    VariableSteps 0 st.scopes (ctx.autovivify token finding st).scopes := by
  unfold autovivify
  dsimp only
  split
  · exact assign_steps 0 token st
  · rw [← ctx.report_scopes token .warning finding st]
    exact assign_steps 0 token _

theorem standAlone_steps (token : Token) (st : ScanState) :
    VariableSteps 0 st.scopes (ctx.standAlone token st).scopes := by
  rw [← ctx.report_scopes token .notice .emptyDeclaration st]
  exact assign_steps 0 token _

theorem applyDocComment_steps (token : Token) (st : ScanState) :
    VariableSteps 0 st.scopes (applyDocComment token st).scopes := by
  -- in a relaxed scope the variable becomes known
  have hdeclare : ∀ st : ScanState, VariableSteps 0 st.scopes
      (if st.scopes.modeAt 0 == .relaxed then st.declare 0 token else st).scopes := by
    intro st
    split
    · exact declare_steps 0 token st
    · exact .refl
  unfold applyDocComment
  split
  · exact .refl
  next type _ =>
    cases type with
    | none => exact hdeclare st
    | some type =>
        let noted := st.onScopes fun scopes => scopes.modifyTop fun frame => frame.noteType token.text type
        exact .head (.noteType token.text type) (hdeclare noted)

theorem applySwitch_scopes (i : Nat) (st : ScanState) :
    (ctx.applySwitch i st).scopes = (st.scopes.applyPending i).1 := by
  unfold applySwitch
  dsimp only
  split <;> simp

/-- **What a command does to the variables** if it opens, ends and drops no scope. -/
theorem perform_steps {c : Command} (hc : c.isPlain ∨ c.isHeader) (st : ScanState) :
    VariableSteps c.reach st.scopes (ctx.perform c st).scopes := by
  cases c with
  | annotate declared stop => exact .refl
  | applyDocComment token => exact applyDocComment_steps token st
  | read token => exact ctx.read_steps token st
  | readLeniently token =>
      dsimp only [perform]
      split
      · exact .refl
      · exact ctx.check_steps _ _ _ _ st
  | check token => exact ctx.check_steps _ _ _ _ st
  | assign token role => exact assignWith_steps 0 token role.mark_token st
  | autovivify token finding => exact ctx.autovivify_steps token finding st
  | coalesce token =>
      dsimp only [perform]
      split
      · exact ctx.check_steps _ _ _ _ st
      · exact assign_steps 0 token st
  | update token finding isAlone =>
      dsimp only [perform]
      split
      · split
        · exact ctx.standAlone_steps token st
        · exact ctx.read_steps token st
      · exact ctx.autovivify_steps token finding st
  | standAlone token => exact ctx.standAlone_steps token st
  | declare token => exact declare_steps 0 token st
  | test token =>
      dsimp only [perform]
      split
      · exact declare_steps 0 token st
      · exact .refl
  | consume i => exact .refl
  | rejectReference token =>
      show VariableSteps _ _ (ctx.report token .error .nonVariableByReference st).scopes
      rw [ctx.report_scopes]
  | bindParameter token isRef => exact .single (.bind _)
  | checkOuter token => exact ctx.check_steps _ _ _ _ st
  | declareOuter token => exact declare_steps 1 token st
  | _ => simp [Command.isPlain, Command.isHeader] at hc

/-- **What a command can do** to the stack of scopes. -/
theorem perform_scopes (c : Command) (st : ScanState) :
    ScopeStep c st.scopes (ctx.perform c st).scopes := by
  by_cases hc : c.isPlain ∨ c.isHeader
  · obtain ⟨hframes, hpending⟩ := (ctx.perform_steps hc st).grow
    exact .grow hframes hpending
  cases c with
  | applySwitch i =>
      show ScopeStep _ _ (ctx.applySwitch i st).scopes
      rw [ctx.applySwitch_scopes]
      exact .switch i
  | dropFinished i => exact .drop i
  | forgetAnnotations i =>
      dsimp only [perform]
      split <;> exact .same
  | schedule trigger effectiveAt => exact .schedule trigger effectiveAt
  | openFunction => exact .openFunction
  | openArrow endIndex =>
      dsimp only [perform, ScanState.onScopes]
      split
      next outer houter => exact .openArrow endIndex houter
      next => exact .same
  | endAt endIndex => exact .endAt endIndex
  | discard => exact .discard
  | _ => simp [Command.isPlain, Command.isHeader] at hc

theorem pending_perform {c : Command} (htrigger : c.isTrigger = false)
    (hswitch : ∀ i, c ≠ .applySwitch i) (st : ScanState) :
    (ctx.perform c st).scopes.pending = st.scopes.pending := by
  have hstep := ctx.perform_scopes c st
  generalize (ctx.perform c st).scopes = new at hstep ⊢
  cases hstep with
  | grow _ hpending => exact hpending
  | schedule => simp [Command.isTrigger] at htrigger
  | switch i => exact absurd rfl (hswitch i)
  | drop | openFunction | openArrow | endAt | discard => rfl

end ScanContext

/-! ## The slot for a switch -/

namespace ScopeStack

variable {old : ScopeStack} {i : Nat} {switch : PendingSwitch}

theorem pending_applyPending_of_due (hp : old.pending = some switch) (hdue : switch.effectiveAt ≤ i) :
    (old.applyPending i).1.pending = none := by
  have hdue' : old.due? i = some switch := by simp [due?, hp, hdue]
  unfold applyPending
  rw [hdue']
  dsimp only
  split <;> rfl

/-- A switch makes the innermost frame relaxed, and changes nothing else about the frames. -/
theorem frames_applyPending (stack : ScopeStack) (i : Int) :
    (stack.applyPending i).1.frames = stack.frames
      ∨ (stack.applyPending i).1.frames = stack.frames.modifyHead fun frame => { frame with mode := .relaxed } := by
  unfold applyPending
  split
  · exact .inl rfl
  · dsimp only
    split
    · exact .inl rfl
    · exact .inr rfl

theorem applyPending_of_not_due (hnot : old.due? i = none) : (old.applyPending i).1 = old := by
  unfold applyPending
  rw [hnot]

end ScopeStack

end Unassigned
