import Unassigned.Proofs.Discipline

/-!
# `Proofs.Isolation` — a step leaves the scopes around the current one alone

What a step does to the stack is seen from one frame, the frame at height `k`: the step **isolates** the `k`
frames below it (`Isolates`). They keep their modes, ends, types and names whatever happens. Their variables can
change only through a name that the frame at height `k` shares with the frame below, so if it owns all its
names they do not change at all. Isolation is carried through frames that are pushed and popped above, and
through every change of a variable, at whatever level it starts (`VariableStep.isolates`).

Shared names come into a frame only when an arrow function opens it (`StepAt.ownsAll_or_openedByArrow`).
Therefore only inside an arrow function can a step reach a variable below the current scope
(`StepAt.scopes_isolated`).
-/

namespace Unassigned

/-! ## Frames that differ in their variables at most -/

/-- Two frames with the same mode, end, types and names. -/
structure Frame.Alike (old new : Frame) : Prop where
  mode : new.mode = old.mode
  endIndex : new.endIndex = old.endIndex
  types : new.types = old.types
  names : new.names = old.names

namespace Frame.Alike

theorem refl (frame : Frame) : frame.Alike frame :=
  ⟨rfl, rfl, rfl, rfl⟩

theorem trans {a b c : Frame} (hab : a.Alike b) (hbc : b.Alike c) : a.Alike c :=
  ⟨hbc.mode.trans hab.mode, hbc.endIndex.trans hab.endIndex, hbc.types.trans hab.types, hbc.names.trans hab.names⟩

/-- Changing the variable of a name that is known. -/
theorem insert {frame : Frame} {name : String} (h : name ∈ frame.names) (binding : Binding) :
    frame.Alike { frame with bindings := Ordered.insert name binding frame.bindings } := by
  refine ⟨rfl, rfl, rfl, ?_⟩
  rw [Frame.names_insert, if_pos h]

end Frame.Alike

/-- Frame by frame, at most the variables differ. -/
abbrev FramesAlike (old new : List Frame) : Prop :=
  List.Forall₂ Frame.Alike old new

namespace FramesAlike

theorem refl (frames : List Frame) : FramesAlike frames frames :=
  List.forall₂_same.mpr fun frame _ => .refl frame

theorem trans {a b c : List Frame} (hab : FramesAlike a b) (hbc : FramesAlike b c) : FramesAlike a c :=
  forall₂_trans hab hbc fun _ _ _ => Frame.Alike.trans

end FramesAlike

theorem Frame.mem_names_of_lookup {frame : Frame} {name : String} {binding : Binding}
    (h : frame.bindings.lookup name = some binding) : name ∈ frame.names :=
  List.mem_map_of_mem (Ordered.mem_of_lookup h)

/-- A variable that is changed stays where it is. -/
theorem modifyVariable_alike (name : String) (change : Variable → Variable) (frames : List Frame) :
    FramesAlike frames (modifyVariable name change frames) := by
  fun_induction modifyVariable name change frames with
  | case1 => exact .nil
  | case2 frame below v h => exact .cons (.insert (Frame.mem_names_of_lookup h) _) (FramesAlike.refl below)
  | case3 frame below h ih => exact .cons (.refl frame) ih
  | case4 frame below h => exact FramesAlike.refl _

/-! ## Isolation -/

/-- What happened between two stacks of frames kept to the frames from height `k` on. -/
inductive Isolates (k : Nat) : List Frame → List Frame → Prop where
  | intro {upper upper' below below' : List Frame} {frame frame' : Frame} (length : below.length = k)
      (alike : FramesAlike below below') (owns : frame.OwnsAll → frame'.OwnsAll ∧ below' = below) :
      Isolates k (upper ++ frame :: below) (upper' ++ frame' :: below')

namespace Isolates

variable {k : Nat} {old mid new : List Frame}

/-- What happens above the frame at height `k` does not matter. -/
theorem append (h : Isolates k old new) (upper upper' : List Frame) :
    Isolates k (upper ++ old) (upper' ++ new) := by
  obtain @⟨inner, inner', below, below', frame, frame', hlength, halike, howns⟩ := h
  rw [← List.append_assoc, ← List.append_assoc]
  exact .intro hlength halike howns

/-- Nothing happens below the frame at height `k`. -/
theorem head {frame frame' : Frame} (below : List Frame) (h : frame.OwnsAll → frame'.OwnsAll)
    (hk : k < (frame :: below).length) : Isolates k (frame :: below) (frame' :: below) := by
  induction below generalizing frame frame' with
  | nil =>
      obtain rfl : k = 0 := by simpa using hk
      exact @intro 0 [] [] [] [] frame frame' rfl .nil fun hframe => ⟨h hframe, rfl⟩
  | cons next below ih =>
      by_cases htop : k = (next :: below).length
      · exact @intro k [] [] _ _ frame frame' htop.symm (FramesAlike.refl _) fun hframe => ⟨h hframe, rfl⟩
      · have hnext : k < (next :: below).length := by
          rw [List.length_cons] at hk
          omega
        exact (ih id hnext).append [frame] [frame']

theorem refl (hk : k < old.length) : Isolates k old old := by
  cases old with
  | nil => simp at hk
  | cons frame below => exact head below id hk

theorem trans (h : Isolates k old mid) (h' : Isolates k mid new) : Isolates k old new := by
  obtain @⟨upper, upper', below, below', frame, frame', hlength, halike, howns⟩ := h
  generalize hmid : upper' ++ frame' :: below' = frames at h'
  obtain @⟨inner, inner', under, under', middle, last, hunder, halike', howns'⟩ := h'
  -- both split the stack in the middle at height `k`
  have hsplit : (frame' :: below').length = (middle :: under).length := by
    rw [List.length_cons, List.length_cons, ← halike.length_eq, hlength, hunder]
  obtain ⟨_, hrest⟩ := List.append_inj' hmid hsplit
  obtain ⟨rfl, rfl⟩ := List.cons.inj hrest
  refine .intro hlength (halike.trans halike') fun hframe => ?_
  obtain ⟨hframe', rfl⟩ := howns hframe
  obtain ⟨hlast, rfl⟩ := howns' hframe'
  exact ⟨hlast, rfl⟩

theorem lt_length (h : Isolates k old new) : k < new.length := by
  obtain ⟨hlength, halike, _⟩ := h
  have heq := halike.length_eq
  simp only [List.length_append, List.length_cons]
  omega

theorem of_suffix (h : new <:+ old) (hk : k < new.length) : Isolates k old new := by
  obtain ⟨upper, rfl⟩ := h
  exact (refl hk).append upper []

theorem modifyHead {change : Frame → Frame} (h : ∀ frame : Frame, frame.OwnsAll → (change frame).OwnsAll)
    (hk : k < old.length) : Isolates k old (old.modifyHead change) := by
  cases old with
  | nil => simp at hk
  | cons frame below => exact head below (h frame) hk

end Isolates

variable {k : Nat}

/-- A change of a variable goes below a frame only through a name that the frame shares. -/
theorem modifyVariable_isolates (name : String) (change : Variable → Variable) {frames : List Frame}
    (hk : k < frames.length) : Isolates k frames (modifyVariable name change frames) := by
  fun_induction modifyVariable name change frames with
  | case1 => simp at hk
  | case2 frame below v h => exact .head below (fun hframe => hframe.insert name _) hk
  | case3 frame below h ih =>
      by_cases htop : k = below.length
      · apply @Isolates.intro k [] [] below _ frame frame htop.symm (modifyVariable_alike name change below)
        intro howns
        exact absurd h (howns name)
      · have hbelow : k < below.length := by
          rw [List.length_cons] at hk
          omega
        exact (ih hbelow).append [frame] [frame]
  | case4 frame below h => exact .refl hk

theorem touchVariable_isolates (token : Token) (change : Variable → Variable) {frames : List Frame}
    (hk : k < frames.length) : Isolates k frames (touchVariable token change frames) := by
  fun_cases touchVariable token change frames with
  | case1 => simp at hk
  | case2 frame below h => exact modifyVariable_isolates _ _ hk
  | case3 frame below h => exact .head below (fun hframe => hframe.insert _ _) hk

theorem ScopeStack.modifyFrom_isolates {change : List Frame → List Frame} {level : Nat}
    (h : ∀ {frames : List Frame}, k < frames.length → Isolates k frames (change frames)) (stack : ScopeStack)
    (hk : k + level < stack.depth) : Isolates k stack.frames (stack.modifyFrom level change).frames := by
  have hdrop : k < (stack.frames.drop level).length := by
    rw [List.length_drop]
    exact Nat.lt_sub_of_add_lt hk
  have happend := (h hdrop).append (stack.frames.take level) (stack.frames.take level)
  rwa [List.take_append_drop] at happend

theorem VariableStep.isolates {level : Nat} {old new : ScopeStack} (h : VariableStep level old new)
    (hk : k + level < old.depth) : Isolates k old.frames new.frames := by
  have htop : k < old.frames.length := Nat.lt_of_le_of_lt (Nat.le_add_right k level) hk
  cases h with
  | modify name change _ => exact old.modifyFrom_isolates (modifyVariable_isolates name change) hk
  | touch token change _ => exact old.modifyFrom_isolates (touchVariable_isolates token change) hk
  | bind v => exact .modifyHead (fun frame hframe => hframe.insert _ v) htop
  | noteType name type => exact .modifyHead (fun frame hframe => hframe) htop

theorem VariableSteps.isolates {level k : Nat} {old new : ScopeStack} (h : VariableSteps level old new)
    (hk : k + level < old.depth) : Isolates k old.frames new.frames := by
  induction h with
  | refl => exact .refl (by unfold ScopeStack.depth at hk; omega)
  | @tail mid new hsteps hstep ih =>
      have hdepth : mid.depth = old.depth := (VariableSteps.grow hsteps).1.length_eq.symm
      exact ih.trans (hstep.isolates (by omega))

/-! ## One step -/

namespace ScanContext

variable (ctx : ScanContext) {k : Nat} {st : ScanState}
variable {cs : List Command}

theorem perform_isolates {c : Command} (hc : c.isLocal ∨ c.isHeader) (hk : k + c.reach < st.scopes.depth) :
    Isolates k st.scopes.frames (ctx.perform c st).scopes.frames := by
  by_cases htrigger : c.isTrigger
  · -- a switch that is scheduled waits beside the frames
    cases c with
    | schedule trigger effectiveAt => exact .refl hk
    | _ => simp [Command.isTrigger] at htrigger
  · have hvariables : c.isPlain ∨ c.isHeader := by simpa [Command.isLocal, htrigger] using hc
    exact (ctx.perform_steps hvariables st).isolates hk

theorem execute_isolates (hcs : ∀ c ∈ cs, c.isLocal ∨ c.isHeader) (hk : ∀ c ∈ cs, k + c.reach < st.scopes.depth)
    (hst : k < st.scopes.depth) : Isolates k st.scopes.frames (ctx.execute cs st).scopes.frames := by
  induction cs generalizing st with
  | nil => exact .refl hst
  | cons c cs ih =>
      rw [execute_cons]
      have hc := hcs c List.mem_cons_self
      have hdepth : (ctx.perform c st).scopes.depth = st.scopes.depth := (ctx.perform_grow hc st).length_eq.symm
      apply (ctx.perform_isolates hc (hk c List.mem_cons_self)).trans
      apply ih (fun d hd => hcs d (List.mem_cons_of_mem c hd))
      · intro d hd
        rw [hdepth]
        exact hk d (List.mem_cons_of_mem c hd)
      · rwa [hdepth]

/-- The header of a function or an arrow function, inside its new scope, reaches the scope around at most. -/
theorem header_isolates (hcs : ∀ c ∈ cs, c.isHeader) {opened : ScanState} {frame : Frame}
    (hopened : opened.scopes = st.scopes.push frame) (hk : k < st.scopes.depth) :
    Isolates k st.scopes.frames (ctx.execute cs opened).scopes.frames := by
  have hframes : opened.scopes.frames = frame :: st.scopes.frames := by rw [hopened]; rfl
  have hdepth : opened.scopes.depth = st.scopes.depth + 1 := congrArg List.length hframes
  have hpush : Isolates k st.scopes.frames opened.scopes.frames := by
    rw [hframes]
    exact (Isolates.refl hk).append [] [frame]
  apply hpush.trans
  apply ctx.execute_isolates (fun c hc => .inr (hcs c hc))
  · intro c _
    have hreach := c.reach_le_one
    omega
  · omega

/-- A function reaches the scope around it at most. -/
theorem function_isolates (hcs : FunctionShape cs) (hk : k < st.scopes.depth) :
    Isolates k st.scopes.frames (ctx.execute (.openFunction :: cs) st).scopes.frames := by
  rw [execute_cons]
  cases hcs with
  | header h => exact ctx.header_isolates h rfl hk
  | body cs endIndex h =>
      have hheader : Isolates k _ (ctx.execute cs (ctx.perform .openFunction st)).scopes.frames :=
        ctx.header_isolates h rfl hk
      rw [execute_append]
      exact hheader.trans (.modifyHead (fun frame hframe => hframe) hheader.lt_length)
  | noBody cs h =>
      have hheader : Isolates k _ (ctx.execute cs (ctx.perform .openFunction st)).scopes.frames :=
        ctx.header_isolates h rfl hk
      obtain ⟨top, below, hframes, _, hbelow⟩ := ctx.frames_header h st
      rw [execute_append]
      show Isolates k _ (ctx.execute cs (ctx.perform .openFunction st)).scopes.frames.tail
      rw [hframes] at hheader ⊢
      apply hheader.trans
      apply Isolates.of_suffix (List.suffix_cons top below)
      rw [← hbelow.length_eq]
      exact hk

theorem shape_isolates (hcs : StepShape cs) (hk : k < st.scopes.depth) :
    Isolates k st.scopes.frames (ctx.execute cs st).scopes.frames := by
  cases hcs with
  | stay h =>
      refine ctx.execute_isolates (fun c hc => .inl (h c hc)) (fun c hc => ?_) hk
      rw [Command.reach_of_isLocal (h c hc)]
      exact hk
  | arrow endIndex h =>
      obtain ⟨outer, houter⟩ : ∃ outer, st.scopes.frame? 0 = some outer :=
        ⟨_, List.getElem?_eq_getElem (Nat.zero_lt_of_lt hk)⟩
      have hopen : (ctx.perform (.openArrow endIndex) st).scopes = st.scopes.push (outer.inner endIndex) := by
        simp [perform, ScanState.onScopes, houter]
      exact ctx.header_isolates h hopen hk
  | function h => exact ctx.function_isolates h hk

/-- On arrival the innermost scope can become relaxed, and scopes above the frame at height `k` are dropped. -/
theorem arrive_isolates {i : Nat} (hk : k < (ctx.arrive i st).scopes.depth) :
    Isolates k st.scopes.frames (ctx.arrive i st).scopes.frames := by
  have hdepth := ctx.depth_arrive_le i st
  have hswitch : Isolates k st.scopes.frames (st.scopes.applyPending i).1.frames := by
    have hst : k < st.scopes.frames.length := Nat.lt_of_lt_of_le hk hdepth
    rcases st.scopes.frames_applyPending i with h | h
    · rw [h]
      exact .refl hst
    · rw [h]
      exact .modifyHead (fun frame hframe => hframe) hst
  rw [arrive_scopes] at hk ⊢
  exact hswitch.trans (.of_suffix (dropFinishedFrames_suffix i _) hk)

/-- **A step keeps to the frames from the current one on.** -/
theorem after_isolates {i : Nat} (hk : k < (ctx.arrive i st).scopes.depth) :
    Isolates k st.scopes.frames (ctx.after i st).scopes.frames := by
  rw [ctx.after_eq]
  exact (ctx.arrive_isolates hk).trans (ctx.shape_isolates (ctx.dispatch_shape _ i) hk)

end ScanContext

/-! ## Who shares names -/

/-- The `k` outermost frames, the innermost of them first. -/
def ScopeStack.outermost (stack : ScopeStack) (k : Nat) : List Frame :=
  stack.frames.drop (stack.depth - k)

namespace ScopeStack

variable {stack old new : ScopeStack}

theorem outermost_of_suffix {below : List Frame} (h : below <:+ stack.frames) :
    stack.outermost below.length = below :=
  (List.suffix_iff_eq_drop.mp h).symm

theorem atHeight_of_append {upper below : List Frame} {frame : Frame}
    (h : stack.frames = upper ++ frame :: below) : stack.atHeight below.length = some frame := by
  simp [atHeight, h]

/-- Isolation in terms of heights. -/
theorem outermost_of_isolates {k : Nat} (h : Isolates k old.frames new.frames) :
    ∃ frame frame', old.atHeight k = some frame ∧ new.atHeight k = some frame'
      ∧ FramesAlike (old.outermost k) (new.outermost k)
      ∧ (frame.OwnsAll → frame'.OwnsAll ∧ new.outermost k = old.outermost k) := by
  generalize hold : old.frames = before at h
  generalize hnew : new.frames = after at h
  obtain @⟨upper, upper', below, below', frame, frame', hlength, halike, howns⟩ := h
  obtain rfl : below.length = k := hlength
  have hbelow : old.outermost below.length = below :=
    outermost_of_suffix ⟨upper ++ [frame], by rw [hold, List.append_assoc]; rfl⟩
  have hbelow' : new.outermost below.length = below' := by
    rw [halike.length_eq]
    exact outermost_of_suffix ⟨upper' ++ [frame'], by rw [hnew, List.append_assoc]; rfl⟩
  have hat' : new.atHeight below.length = some frame' := by
    rw [halike.length_eq]
    exact atHeight_of_append hnew
  rw [hbelow, hbelow']
  exact ⟨frame, frame', atHeight_of_append hold, hat', halike, howns⟩

end ScopeStack

namespace ScanContext

variable {ctx : ScanContext}

/-- A function opens a scope with variables of its own, or none is left of it. -/
theorem frames_function (ctx : ScanContext) {cs : List Command} (hcs : FunctionShape cs) (st : ScanState) :
    FramesGrow st.scopes.frames (ctx.execute (.openFunction :: cs) st).scopes.frames
      ∨ ∃ top below, (ctx.execute (.openFunction :: cs) st).scopes.frames = top :: below
        ∧ top.OwnsAll ∧ FramesGrow st.scopes.frames below := by
  cases hcs with
  | header h =>
      obtain ⟨top, below, hframes, htop, hbelow⟩ := ctx.frames_header h st
      exact .inr ⟨top, below, hframes, htop.ownsAll (Frame.ownsAll_of_nil rfl), hbelow⟩
  | body cs endIndex h =>
      obtain ⟨top, below, hframes, htop, hbelow⟩ := ctx.grows_body h endIndex st
      exact .inr ⟨top, below, hframes, htop.ownsAll (Frame.ownsAll_of_nil rfl), hbelow⟩
  | noBody cs h => exact .inl (ctx.frames_noBody h st)

/-- The scope at height `h` at moment `n` is that of an arrow function. -/
def OpenedByArrow (ctx : ScanContext) (h n : Nat) : Prop :=
  ∃ i, ctx.OpenedAt h i n ∧ ctx.file.kind i = .keyword .fnWord

/-- The scope that a step opens. -/
theorem StepAt.opened_ownsAll {t n i : Nat} (h : ctx.StepAt t n i) (hi : i < ctx.file.size) {height : Nat}
    {frame : Frame} (hheight : (ctx.arrive i (ctx.stateAt n)).scopes.depth ≤ height)
    (hframe : (ctx.after i (ctx.stateAt n)).scopes.atHeight height = some frame) :
    frame.OwnsAll ∨ ctx.OpenedByArrow height (n + (ctx.plan i (ctx.stateAt n)).commands.length) := by
  have hlt := ScopeStack.lt_depth_of_atHeight hframe
  rw [ctx.after_eq] at hframe hlt
  have hshape := ctx.dispatch_shape (ctx.arrive i (ctx.stateAt n)).currentTypes i
  have hpos := ctx.depth_arrive i h.depth_pos
  generalize hcs : (ctx.dispatch (ctx.arrive i (ctx.stateAt n)).currentTypes i).commands = cs
    at hframe hlt hshape
  cases hshape with
  | stay hlocal =>
      -- no scope is opened
      rw [ctx.depth_execute fun c hc => Command.keepsDepth_of_isLocal (hlocal c hc)] at hlt
      omega
  | @arrow cs endIndex hheader =>
      have hkeeps : ∀ c ∈ cs, c.keepsDepth := fun c hc => Command.keepsDepth_of_isHeader (hheader c hc)
      have hopen := ctx.depth_openArrow endIndex hpos
      rw [execute_cons, ctx.depth_execute hkeeps, hopen] at hlt
      obtain rfl : height = (ctx.arrive i (ctx.stateAt n)).scopes.depth := by omega
      exact .inr ⟨i, h.openedAt hi hcs rfl hopen hkeeps, ctx.kind_of_openArrow hcs⟩
  | function hfunction =>
      rcases ctx.frames_function hfunction (ctx.arrive i (ctx.stateAt n))
        with hgrow | ⟨top, below, hframes, howns, hgrow⟩
      · have hdepth := hgrow.length_eq
        unfold ScopeStack.depth at hlt hheight
        omega
      · have hdepth := hgrow.length_eq
        unfold ScopeStack.depth at hlt hheight
        rw [hframes, List.length_cons] at hlt
        obtain rfl : height = below.length := by omega
        rw [@ScopeStack.atHeight_of_append _ [] below top hframes] at hframe
        obtain rfl : top = frame := Option.some.inj hframe
        exact .inl howns

/-- **Only the scope of an arrow function shares names** with the scope around it. -/
theorem StepAt.ownsAll_or_openedByArrow {t n i : Nat} (h : ctx.StepAt t n i) {height : Nat} {frame : Frame}
    (hframe : (ctx.stateAt n).scopes.atHeight height = some frame) :
    frame.OwnsAll ∨ ctx.OpenedByArrow height n := by
  induction h generalizing height frame with
  | start =>
      -- the scope of the file, which knows no name yet
      rw [stateAt_zero] at hframe
      have hmem : frame ∈ [({ mode := .relaxed } : Frame)] := List.mem_of_getElem? hframe
      obtain rfl : frame = { mode := .relaxed } := by simpa using hmem
      exact .inl (Frame.ownsAll_of_nil rfl)
  | @next t n i last h hi hlast ih =>
      rw [h.stateAt_next hi] at hframe
      by_cases hheight : height < (ctx.arrive i (ctx.stateAt n)).scopes.depth
      · -- the scope was there before the step
        obtain ⟨old, new, hold, hnew, _, howns⟩ := ScopeStack.outermost_of_isolates (ctx.after_isolates hheight)
        obtain rfl : new = frame := Option.some.inj (hnew.symm.trans hframe)
        rcases ih hold with hall | ⟨j, hopened, hfn⟩
        · exact .inl (howns hall).1
        · have hopen := h.staysOpen hi h.depth_pos hheight
          exact .inr ⟨j, hopened.extend (Nat.le_add_right n _) hopen, hfn⟩
      · exact h.opened_ownsAll hi (Nat.le_of_not_lt hheight) hframe

end ScanContext

/-! ## Isolation of scopes -/

theorem tail_suffix_tail {α : Type} {as bs : List α} (h : as <:+ bs) : as.tail <:+ bs.tail := by
  cases bs with
  | nil => simp [List.suffix_nil.mp h]
  | cons b bs =>
      rcases List.suffix_cons_iff.mp h with rfl | h
      · exact List.suffix_rfl
      · exact (List.tail_suffix as).trans h

theorem ScopeStack.tail_applyPending (stack : ScopeStack) (i : Int) :
    (stack.applyPending i).1.frames.tail = stack.frames.tail := by
  rcases stack.frames_applyPending i with h | h
  · rw [h]
  · rw [h]
    cases stack.frames <;> rfl

namespace ScanContext

variable {ctx : ScanContext}

/-- The frames below the current one are untouched on arrival. -/
theorem tail_arrive_suffix (i : Nat) (st : ScanState) :
    (ctx.arrive i st).scopes.frames.tail <:+ st.scopes.frames := by
  rw [arrive_scopes]
  have hdrop := tail_suffix_tail (dropFinishedFrames_suffix i (st.scopes.applyPending i).1.frames)
  rw [ScopeStack.tail_applyPending] at hdrop
  exact hdrop.trans (List.tail_suffix _)

/-- **Scope isolation.** For the scan of any file, at any level and with any settings: a step leaves the scopes
    below the current one alone, whether it succeeds or fails. -/
theorem StepAt.scopes_isolated {t n i : Nat} (h : ctx.StepAt t n i) :
    ∃ current below, (ctx.arrive i (ctx.stateAt n)).scopes.frames = current :: below
      -- the frames below the current one are those from before the step
      ∧ (ctx.stateAt n).scopes.outermost below.length = below
      -- after the step they have the modes, ends, types and names that they had
      ∧ FramesAlike below ((ctx.after i (ctx.stateAt n)).scopes.outermost below.length)
      -- and, unless the current scope is that of an arrow function, the same variables in the same state
      ∧ (¬ ctx.OpenedByArrow below.length n →
          (ctx.after i (ctx.stateAt n)).scopes.outermost below.length = below) := by
  obtain ⟨current, below, hframes⟩ := List.exists_cons_of_length_pos (ctx.depth_arrive i h.depth_pos)
  have hsuffix := ctx.tail_arrive_suffix i (ctx.stateAt n)
  rw [hframes, List.tail_cons] at hsuffix
  have hbelow := ScopeStack.outermost_of_suffix hsuffix
  have hlt : below.length < (ctx.arrive i (ctx.stateAt n)).scopes.depth := by
    rw [ScopeStack.depth, hframes]
    exact Nat.lt_succ_self _
  obtain ⟨frame, _, hframe, _, halike, howns⟩ := ScopeStack.outermost_of_isolates (ctx.after_isolates hlt)
  rw [hbelow] at halike howns
  refine ⟨current, below, hframes, hbelow, halike, fun hnot => ?_⟩
  rcases h.ownsAll_or_openedByArrow hframe with hall | harrow
  · exact (howns hall).2
  · exact absurd harrow hnot

end ScanContext

/-- A function with a closure that captures a parameter, and an arrow function that reads it. -/
def sharedParameter : String :=
  "<?php function f($a) \x7b $g = function() use (&$a) \x7b $b = 1; \x7d; return fn() => $a; \x7d"

theorem sharedParameter_run : ∃ file, SourceFile.ofSource "f.php" sharedParameter = .ok file
    ∧ let ctx := (Linter.mk .notice true [] []).context file
      ctx.StepAt 9 37 27 ∧ (ctx.arrive 27 (ctx.stateAt 37)).scopes.depth = 3
      ∧ ((List.range 27).all fun j => file.kind j ≠ .keyword .fnWord)
      ∧ ctx.StepAt 23 82 45 ∧ (ctx.arrive 45 (ctx.stateAt 82)).scopes.depth = 3
      ∧ (ctx.after 45 (ctx.stateAt 82)).scopes.outermost 2 ≠ (ctx.stateAt 82).scopes.outermost 2 :=
  exists_ok_of_decide (by decide +kernel)

/-- The assignment to `$b` in the closure does not change what is known of `f` and of the file. The `$a` in the
    arrow function changes the parameter of `f`, but no name, type, mode or end there. -/
theorem Linter.sharedParameter_isolated : ∃ file, SourceFile.ofSource "f.php" sharedParameter = .ok file
    ∧ let ctx := (Linter.mk .notice true [] []).context file
      ctx.StepAt 9 37 27 ∧ ¬ ctx.OpenedByArrow 2 37
      ∧ (ctx.after 27 (ctx.stateAt 37)).scopes.outermost 2 = (ctx.stateAt 37).scopes.outermost 2
      ∧ ctx.StepAt 23 82 45
      ∧ FramesAlike ((ctx.stateAt 82).scopes.outermost 2) ((ctx.after 45 (ctx.stateAt 82)).scopes.outermost 2)
      ∧ (ctx.after 45 (ctx.stateAt 82)).scopes.outermost 2 ≠ (ctx.stateAt 82).scopes.outermost 2 := by
  obtain ⟨file, hfile, hclosure, hdepth, hfn, harrow, hdepth', hchanged⟩ := sharedParameter_run
  refine ⟨file, hfile, ?_⟩
  intro ctx
  have hnot : ¬ ctx.OpenedByArrow 2 37 := by
    rintro ⟨j, hopened, hkind⟩
    have hbefore := List.all_eq_true.mp hfn j (List.mem_range.mpr (hopened.lt hclosure))
    exact of_decide_eq_true hbefore hkind
  have hlength : ∀ {stack : ScopeStack} {current : Frame} {below : List Frame},
      stack.frames = current :: below → stack.depth = 3 → below.length = 2 := by
    intro stack current below hframes hstack
    rw [ScopeStack.depth, hframes] at hstack
    exact Nat.succ.inj hstack
  obtain ⟨_, below, hframes, hbelow, _, hsame⟩ := ScanContext.StepAt.scopes_isolated hclosure
  rw [hlength hframes hdepth] at hbelow hsame
  obtain ⟨_, below', hframes', hbelow', halike, _⟩ := ScanContext.StepAt.scopes_isolated harrow
  rw [hlength hframes' hdepth'] at hbelow' halike
  refine ⟨hclosure, hnot, ?_, harrow, ?_, hchanged⟩
  · rw [hbelow]
    exact hsame hnot
  · rw [hbelow']
    exact halike

end Unassigned
