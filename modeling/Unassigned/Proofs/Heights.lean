import Unassigned.Proofs.ScopeStep

/-!
# `Proofs.Heights` — a frame through the moments of a scan

The frame at height `h` is the one with `h` frames below it; the file scope has height 0. A frame **stays
open** from one moment to another if there is a frame at its height at all moments between them: no command
both drops and opens frames, so that is always the same frame. As long as it stays open it keeps the names
that it knows, and once relaxed it stays relaxed (`evolves_of_staysOpen`).

Every command finds the frames that it refers to: there is always a file scope, and what is said about the
scope around a function is said while the scope of the function is open (`reach_lt_depth`).
-/

namespace Unassigned

/-! ## Heights -/

/-- The frame with `h` frames below it. -/
def ScopeStack.atHeight (stack : ScopeStack) (h : Nat) : Option Frame :=
  stack.frames.reverse[h]?

/-- A frame at a later moment: it knows at least as much, and once relaxed it is relaxed. -/
structure Frame.Evolves (old new : Frame) : Prop where
  names : old.names <+: new.names
  relaxed : old.mode = .relaxed → new.mode = .relaxed

theorem Frame.Evolves.refl (frame : Frame) : frame.Evolves frame :=
  ⟨List.prefix_rfl, id⟩

theorem Frame.Evolves.trans {a b c : Frame} (hab : a.Evolves b) (hbc : b.Evolves c) :
    a.Evolves c :=
  ⟨hab.names.trans hbc.names, fun h => hbc.relaxed (hab.relaxed h)⟩

theorem Frame.Grows.evolves {a b : Frame} (h : a.Grows b) : a.Evolves b :=
  ⟨h.names, fun ha => by rw [h.mode, ha]⟩

namespace ScopeStack

variable {stack old new : ScopeStack}
variable {h : Nat}

theorem lt_depth_of_atHeight {frame : Frame} (hframe : stack.atHeight h = some frame) : h < stack.depth := by
  obtain ⟨hlt, _⟩ := List.getElem?_eq_some_iff.mp hframe
  simpa [depth] using hlt

/-- Levels count from the innermost frame, heights from the file scope. -/
theorem frame?_eq_atHeight {level : Nat} (hlevel : level < stack.depth) :
    stack.frame? level = stack.atHeight (stack.depth - 1 - level) := by
  unfold depth at hlevel ⊢
  rw [frame?, atHeight, List.getElem?_reverse (by omega)]
  congr 1
  omega

/-- Outer frames are the same in a stack with frames on top. -/
theorem atHeight_of_suffix (hsuffix : new.frames <:+ old.frames) (hh : h < new.depth) :
    new.atHeight h = old.atHeight h := by
  have hprefix : new.frames.reverse <+: old.frames.reverse := List.reverse_prefix.mpr hsuffix
  have hlt : h < new.frames.reverse.length := by simpa [depth] using hh
  rw [atHeight, atHeight, List.getElem?_eq_getElem hlt, hprefix.getElem hlt]
  exact (List.getElem?_eq_getElem _).symm

/-- A relation between the frames of two stacks, level by level, holds height by height. -/
theorem atHeight_of_forall₂ {R : Frame → Frame → Prop} (hrel : List.Forall₂ R old.frames new.frames) {frame : Frame}
    (hframe : old.atHeight h = some frame) : ∃ frame', new.atHeight h = some frame' ∧ R frame frame' := by
  have hrev := List.forall₂_reverse_iff.mpr hrel
  obtain ⟨hlt, rfl⟩ := List.getElem?_eq_some_iff.mp hframe
  have hlt' : h < new.frames.reverse.length := hrev.length_eq ▸ hlt
  exact ⟨_, List.getElem?_eq_getElem hlt', hrev.get hlt hlt'⟩

/-- The application of a switch changes the current frame only, and only its mode. -/
theorem applyPending_forall₂ {R : Frame → Frame → Prop} (hrefl : ∀ frame, R frame frame)
    (hrelax : ∀ frame, R frame { frame with mode := .relaxed }) (i : Int) :
    List.Forall₂ R old.frames (old.applyPending i).1.frames := by
  have hsame : List.Forall₂ R old.frames old.frames := List.forall₂_same.mpr fun frame _ => hrefl frame
  rcases old.frames_applyPending i with h | h
  · rwa [h]
  · rw [h]
    generalize old.frames = frames at hsame ⊢
    cases hsame with
    | nil => exact .nil
    | cons _ hbelow => exact .cons (hrelax _) hbelow

theorem applyPending_evolves (i : Int) :
    List.Forall₂ Frame.Evolves old.frames (old.applyPending i).1.frames :=
  applyPending_forall₂ .refl (fun _ => ⟨List.prefix_rfl, fun _ => rfl⟩) i

end ScopeStack

section

variable {R : Frame → Frame → Prop} (hrefl : ∀ frame, R frame frame)

include hrefl

/-- A command opens frames or drops frames or changes them by `R`, which holds where a frame grows, becomes relaxed
    or is given its end. -/
theorem ScopeStep.frames {c : Command} {old new : ScopeStack} (hgrow : ∀ a b : Frame, a.Grows b → R a b)
    (hrelax : ∀ frame : Frame, R frame { frame with mode := .relaxed })
    (hend : ∀ (frame : Frame) (e : Nat), R frame { frame with endIndex := e }) (hstep : ScopeStep c old new) :
    old.frames <:+ new.frames ∨ new.frames <:+ old.frames ∨ List.Forall₂ R old.frames new.frames := by
  cases hstep with
  | grow hframes => exact .inr (.inr (hframes.imp hgrow))
  | schedule => exact .inl List.suffix_rfl
  | switch i => exact .inr (.inr (ScopeStack.applyPending_forall₂ hrefl hrelax i))
  | drop i => exact .inr (.inl (dropFinishedFrames_suffix i _))
  | openFunction => exact .inl (List.suffix_cons _ _)
  | openArrow => exact .inl (List.suffix_cons _ _)
  | endAt endIndex =>
      refine .inr (.inr ?_)
      show List.Forall₂ _ _ (old.frames.modifyHead _)
      cases old.frames with
      | nil => exact .nil
      | cons frame below => exact .cons (hend frame endIndex) (List.forall₂_same.mpr fun frame _ => hrefl frame)
  | discard => exact .inr (.inl (List.tail_suffix _))

/-- A frame whose height is still there after frames were opened or dropped or changed by `R` is the same frame,
    changed by `R`. -/
theorem ScopeStack.atHeight_of_frames {old new : ScopeStack}
    (hframes : old.frames <:+ new.frames ∨ new.frames <:+ old.frames ∨ List.Forall₂ R old.frames new.frames)
    {h : Nat} {frame : Frame} (hframe : old.atHeight h = some frame) (hh : h < new.depth) :
    ∃ frame', new.atHeight h = some frame' ∧ R frame frame' := by
  rcases hframes with hsuffix | hsuffix | hrel
  · have heq := ScopeStack.atHeight_of_suffix hsuffix (ScopeStack.lt_depth_of_atHeight hframe)
    exact ⟨frame, by rw [← heq, hframe], hrefl frame⟩
  · have heq := ScopeStack.atHeight_of_suffix hsuffix hh
    exact ⟨frame, by rw [heq, hframe], hrefl frame⟩
  · exact ScopeStack.atHeight_of_forall₂ hrel hframe

/-- In a sequence of stacks of which each comes from the one before, a frame is only changed by `R` as long as
    there is one at its height. -/
theorem ScopeStack.atHeight_of_open (htrans : ∀ a b c, R a b → R b c → R a c) {stack : Nat → ScopeStack}
    (hstep : ∀ k h frame, (stack k).atHeight h = some frame → h < (stack (k + 1)).depth →
      ∃ frame', (stack (k + 1)).atHeight h = some frame' ∧ R frame frame')
    {h a b : Nat} (hab : a ≤ b) (hopen : ∀ k, a ≤ k → k ≤ b → h < (stack k).depth) {frame : Frame}
    (hframe : (stack a).atHeight h = some frame) :
    ∃ frame', (stack b).atHeight h = some frame' ∧ R frame frame' := by
  induction hab with
  | refl => exact ⟨frame, hframe, hrefl frame⟩
  | @step b hab ih =>
      obtain ⟨frame', hframe', hchange⟩ := ih fun k hak hkb => hopen k hak (Nat.le_succ_of_le hkb)
      obtain ⟨frame'', hframe'', hchange'⟩ :=
        hstep b h frame' hframe' (hopen (b + 1) (Nat.le_succ_of_le hab) (Nat.le_refl _))
      exact ⟨frame'', hframe'', htrans _ _ _ hchange hchange'⟩

end

/-- A frame whose height is still there after a command is the same frame, grown. -/
theorem ScopeStep.atHeight {c : Command} {old new : ScopeStack} (hstep : ScopeStep c old new)
    {h : Nat} {frame : Frame} (hframe : old.atHeight h = some frame) (hh : h < new.depth) :
    ∃ frame', new.atHeight h = some frame' ∧ frame.Evolves frame' := by
  have hframes := ScopeStep.frames Frame.Evolves.refl (fun _ _ hgrow => hgrow.evolves)
    (fun _ => ⟨List.prefix_rfl, fun _ => rfl⟩) (fun _ _ => ⟨List.prefix_rfl, id⟩) hstep
  exact ScopeStack.atHeight_of_frames Frame.Evolves.refl hframes hframe hh

/-! ## Depth -/

/-- A command after which there are as many frames as before. -/
def Command.keepsDepth (c : Command) : Prop :=
  ∀ old new : ScopeStack, ScopeStep c old new → new.depth = old.depth

namespace Command

variable {c : Command}

theorem keepsDepth_of_isLocal (h : c.isLocal) : c.keepsDepth := by
  intro old new hstep
  cases hstep with
  | grow hframes => exact hframes.length_eq.symm
  | schedule => rfl
  | _ => simp [isLocal, isPlain, isTrigger] at h

theorem keepsDepth_of_isHeader (h : c.isHeader) : c.keepsDepth := by
  intro old new hstep
  cases hstep with
  | grow hframes => exact hframes.length_eq.symm
  | _ => simp [isHeader] at h

theorem reach_of_isLocal (h : c.isLocal) : c.reach = 0 := by
  cases c <;> first | rfl | simp [isLocal, isPlain, isTrigger] at h

theorem isParameter_of_isLocal (h : c.isLocal) : c.isParameter = false := by
  cases c <;> first | rfl | simp [isLocal, isPlain, isTrigger] at h

theorem reach_le_one (c : Command) : c.reach ≤ 1 := by
  cases c <;> simp [reach]

end Command

namespace ScanContext

variable (ctx : ScanContext)

theorem depth_execute {cs : List Command} (h : ∀ c ∈ cs, c.keepsDepth) (st : ScanState) :
    (ctx.execute cs st).scopes.depth = st.scopes.depth := by
  induction cs generalizing st with
  | nil => rfl
  | cons c cs ih =>
      rw [execute_cons, ih (fun d hd => h d (by simp [hd]))]
      exact h c (by simp) _ _ (ctx.perform_scopes c st)

/-- The file scope is there throughout the arrival at a place. -/
theorem depth_arriving (i k : Nat) {st : ScanState} (h : 0 < st.scopes.depth) :
    0 < (ctx.execute ((arrival i).take k) st).scopes.depth := by
  -- what each of the three commands keeps
  have hkeep : ∀ c ∈ arrival i, ∀ {st : ScanState}, 0 < st.scopes.depth →
      0 < (ctx.perform c st).scopes.depth := by
    intro c hc st hst
    have hstep := ctx.perform_scopes c st
    rcases (by simpa [arrival] using hc) with rfl | rfl | rfl
    · show 0 < (ctx.applySwitch i st).scopes.frames.length
      rw [ctx.applySwitch_scopes]
      exact (ScopeStack.applyPending_evolves i).length_eq ▸ hst
    · exact List.length_pos_iff.mpr (dropFinishedFrames_ne_nil i (List.length_pos_iff.mp hst))
    · cases hstep with
      | grow hframes =>
          show 0 < (ctx.perform (.forgetAnnotations i) st).scopes.frames.length
          exact hframes.length_eq ▸ hst
  have hexecute : ∀ cs : List Command, (∀ c ∈ cs, c ∈ arrival i) → ∀ {st : ScanState},
      0 < st.scopes.depth → 0 < (ctx.execute cs st).scopes.depth := by
    intro cs hcs
    induction cs with
    | nil => exact fun hst => hst
    | cons c cs ih =>
        intro st hst
        exact ih (fun d hd => hcs d (by simp [hd])) (hkeep c (hcs c (by simp)) hst)
  exact hexecute _ (fun c hc => List.mem_of_mem_take hc) h

theorem depth_arrive (i : Nat) {st : ScanState} (h : 0 < st.scopes.depth) :
    0 < (ctx.arrive i st).scopes.depth :=
  ctx.depth_arriving i (arrival i).length h

end ScanContext

namespace FunctionShape

variable (ctx : ScanContext) {cs : List Command} {st : ScanState}

/-- Only the last command of a function can drop its scope. -/
theorem keepsDepth_take (h : FunctionShape cs) {k : Nat} (hk : k < cs.length) :
    ∀ c ∈ cs.take k, c.keepsDepth := by
  have hheader : ∀ {ds : List Command} {last : Command}, (∀ c ∈ ds, c.isHeader) →
      k < (ds ++ [last]).length → ∀ c ∈ (ds ++ [last]).take k, c.keepsDepth := by
    intro ds last hds hk c hc
    have hle : k ≤ ds.length := by simpa [Nat.lt_succ_iff] using hk
    rw [List.take_append_of_le_length hle] at hc
    exact Command.keepsDepth_of_isHeader (hds c (List.mem_of_mem_take hc))
  cases h with
  | header h => exact fun c hc => Command.keepsDepth_of_isHeader (h c (List.mem_of_mem_take hc))
  | body cs endIndex h => exact hheader h hk
  | noBody cs h => exact hheader h hk

theorem depth_execute (h : FunctionShape cs) (hst : 1 < st.scopes.depth) :
    0 < (ctx.execute cs st).scopes.depth := by
  have hheader : ∀ {cs : List Command}, (∀ c ∈ cs, c.isHeader) → 1 < (ctx.execute cs st).scopes.depth := by
    intro cs h
    rwa [ctx.depth_execute fun c hc => Command.keepsDepth_of_isHeader (h c hc)]
  cases h with
  | header h => exact Nat.lt_of_succ_lt (hheader h)
  | body cs endIndex h =>
      rw [ctx.execute_append]
      show 0 < ((ctx.execute cs st).scopes.frames.modifyHead _).length
      rw [List.length_modifyHead]
      exact Nat.lt_of_succ_lt (hheader h)
  | noBody cs h =>
      rw [ctx.execute_append]
      show 0 < (ctx.execute cs st).scopes.frames.tail.length
      rw [List.length_tail]
      exact Nat.sub_pos_of_lt (hheader h)

end FunctionShape

namespace ScanContext

variable (ctx : ScanContext)
variable {st : ScanState} {cs : List Command} {k : Nat} {c : Command}

theorem depth_openArrow (endIndex : Nat) (h : 0 < st.scopes.depth) :
    (ctx.perform (.openArrow endIndex) st).scopes.depth = st.scopes.depth + 1 := by
  obtain ⟨outer, houter⟩ : ∃ outer, st.scopes.frame? 0 = some outer :=
    ⟨_, List.getElem?_eq_getElem h⟩
  simp [perform, ScanState.onScopes, houter, ScopeStack.push, ScopeStack.depth]

/-- Inside a step, a command that reaches out of the current scope or binds a parameter comes after a scope was
    opened. -/
theorem depth_take_of_shape (hshape : StepShape cs) (hst : 0 < st.scopes.depth) (hk : cs[k]? = some c) :
    (ctx.execute (cs.take k) st).scopes.depth = st.scopes.depth + 1
      ∨ (ctx.execute (cs.take k) st).scopes.depth = st.scopes.depth ∧ c.reach = 0 ∧ c.isParameter = false := by
  have hlt : k < cs.length := (List.getElem?_eq_some_iff.mp hk).1
  cases hshape with
  | stay h =>
      have hlocal := h c (List.mem_of_getElem? hk)
      refine .inr ⟨?_, Command.reach_of_isLocal hlocal, Command.isParameter_of_isLocal hlocal⟩
      exact ctx.depth_execute (fun d hd => Command.keepsDepth_of_isLocal (h d (List.mem_of_mem_take hd))) st
  | arrow endIndex h =>
      cases k with
      | zero =>
          obtain rfl : .openArrow endIndex = c := by simpa using hk
          exact .inr ⟨rfl, rfl, rfl⟩
      | succ k =>
          rw [List.take_succ_cons, execute_cons, ctx.depth_execute fun d hd =>
            Command.keepsDepth_of_isHeader (h d (List.mem_of_mem_take hd))]
          exact .inl (ctx.depth_openArrow endIndex hst)
  | function h =>
      cases k with
      | zero =>
          obtain rfl : .openFunction = c := by simpa using hk
          exact .inr ⟨rfl, rfl, rfl⟩
      | succ k =>
          rw [List.take_succ_cons, execute_cons,
            ctx.depth_execute (h.keepsDepth_take (by simpa using hlt))]
          exact .inl rfl

/-- Inside a step, every command finds the frames that it refers to. -/
theorem lt_depth_of_shape (hshape : StepShape cs) (hst : 0 < st.scopes.depth) (hk : cs[k]? = some c) :
    c.reach < (ctx.execute (cs.take k) st).scopes.depth
      ∧ (c.isParameter → 1 < (ctx.execute (cs.take k) st).scopes.depth) := by
  rcases ctx.depth_take_of_shape hshape hst hk with hdepth | ⟨hdepth, hreach, hparameter⟩
  · have hreach := c.reach_le_one
    rw [hdepth]
    exact ⟨by omega, fun _ => by omega⟩
  · rw [hdepth, hreach, hparameter]
    exact ⟨hst, nofun⟩

theorem depth_pos_of_shape (hshape : StepShape cs) (hst : 0 < st.scopes.depth) :
    0 < (ctx.execute cs st).scopes.depth := by
  cases hshape with
  | stay h => rwa [ctx.depth_execute fun c hc => Command.keepsDepth_of_isLocal (h c hc)]
  | arrow endIndex h =>
      rw [execute_cons, ctx.depth_execute fun c hc => Command.keepsDepth_of_isHeader (h c hc)]
      have hopen := ctx.depth_openArrow endIndex hst
      omega
  | function h =>
      rw [execute_cons]
      refine h.depth_execute ctx ?_
      have hopen : (ctx.perform .openFunction st).scopes.depth = st.scopes.depth + 1 := rfl
      omega

/-- A step never leaves the scan without a scope. -/
theorem depth_after (i : Nat) (hst : 0 < st.scopes.depth) : 0 < (ctx.after i st).scopes.depth := by
  rw [ctx.after_eq]
  exact ctx.depth_pos_of_shape (ctx.dispatch_shape _ i) (ctx.depth_arrive i hst)

/-- Every command finds the frames that it refers to, and a parameter is bound inside the file scope. -/
theorem lt_depth (hk : ctx.history[k]? = some c) :
    c.reach < (ctx.stateAt k).scopes.depth ∧ (c.isParameter → 1 < (ctx.stateAt k).scopes.depth) := by
  refine performed_induction (fun _ st => 0 < st.scopes.depth)
    (fun c st => c.reach < st.scopes.depth ∧ (c.isParameter → 1 < st.scopes.depth)) (by decide) ?_ ?_ ?_ hk
  · intro i st _ hst k c hk
    obtain ⟨hreach, hparameter⟩ : c.reach = 0 ∧ c.isParameter = false := by
      rcases (by simpa [arrival] using List.mem_of_getElem? hk) with rfl | rfl | rfl <;> exact ⟨rfl, rfl⟩
    rw [hreach, hparameter]
    exact ⟨ctx.depth_arriving i k hst, nofun⟩
  · intro i st _ hst k c hk
    exact ctx.lt_depth_of_shape (ctx.dispatch_shape _ i) (ctx.depth_arrive i hst) hk
  · exact fun i st last _ hst _ => ctx.depth_after i hst

/-- **Every command finds the frames that it refers to.** -/
theorem reach_lt_depth (hk : ctx.history[k]? = some c) : c.reach < (ctx.stateAt k).scopes.depth :=
  (ctx.lt_depth hk).1

/-! ## Frames through the moments -/

/-- The frame at height `h` at a moment. -/
def frameAt (k h : Nat) : Option Frame :=
  (ctx.stateAt k).scopes.atHeight h

/-- There is a frame at height `h` from moment `a` to moment `b`. -/
def StaysOpen (h a b : Nat) : Prop :=
  ∀ k, a ≤ k → k ≤ b → h < (ctx.stateAt k).scopes.depth

instance (h a b : Nat) : Decidable (ctx.StaysOpen h a b) :=
  decidable_of_iff (∀ k, k < b + 1 → a ≤ k → h < (ctx.stateAt k).scopes.depth)
    ⟨fun hall k hak hkb => hall k (by omega) hak, fun hopen k hkb hak => hopen k hak (by omega)⟩

theorem stateAt_scopes (k : Nat) :
    ctx.stateAt (k + 1) = ctx.stateAt k ∨ ∃ c, ctx.history[k]? = some c
      ∧ ScopeStep c (ctx.stateAt k).scopes (ctx.stateAt (k + 1)).scopes := by
  cases hk : ctx.history[k]? with
  | none => exact .inl (ctx.stateAt_succ_of_none hk)
  | some c =>
      refine .inr ⟨c, rfl, ?_⟩
      rw [ctx.stateAt_succ hk]
      exact ctx.perform_scopes c _

/-- **A frame evolves as long as it stays open.** -/
theorem evolves_of_staysOpen {h a b : Nat} (hab : a ≤ b) (hopen : ctx.StaysOpen h a b)
    {frame : Frame} (hframe : ctx.frameAt a h = some frame) :
    ∃ frame', ctx.frameAt b h = some frame' ∧ frame.Evolves frame' := by
  refine ScopeStack.atHeight_of_open Frame.Evolves.refl (fun _ _ _ => Frame.Evolves.trans)
    (fun k h frame hframe hh => ?_) hab hopen hframe
  rcases ctx.stateAt_scopes k with heq | ⟨c, _, hstep⟩
  · rw [heq]
    exact ⟨frame, hframe, .refl frame⟩
  · exact hstep.atHeight hframe hh

end ScanContext

end Unassigned
