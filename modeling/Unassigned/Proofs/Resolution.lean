import Unassigned.Proofs.FileVariable
import Unassigned.Proofs.Knowledge

/-!
# `Proofs.Resolution` — the variables behind the names of the current scope

A name of an arrow function's scope can stand for a variable of the scope around it, which can itself be such a
name. This never leads nowhere: at every moment of a scan each known name has its variable (`stateAt_resolved`).
So an **assignment** is seen at once in the scope where it is made, and under no other name (`status_assigned`,
`find?_assigned_of_ne`). `assignAll` is a row of assignments in the current scope.
-/

namespace Unassigned

/-! ## Names that lead somewhere -/

/-- Where a name of a frame stands for the variable of the frame below, the frame below knows the name. -/
inductive Resolved : List Frame → Prop where
  | nil : Resolved []
  | cons {frame : Frame} {below : List Frame}
      (head : ∀ name, frame.bindings.lookup name = some .enclosing →
        ∃ next, below.head? = some next ∧ next.declares name)
      (tail : Resolved below) : Resolved (frame :: below)

/-- A frame after a change that keeps its names and lets no further name stand for a variable below. -/
structure Frame.Refines (old new : Frame) : Prop where
  declares : ∀ name, old.declares name → new.declares name
  enclosing : ∀ name, new.bindings.lookup name = some .enclosing → old.bindings.lookup name = some .enclosing

namespace Frame.Refines

theorem refl (frame : Frame) : frame.Refines frame :=
  ⟨fun _ => id, fun _ => id⟩

theorem of_bindings {old new : Frame} (h : new.bindings = old.bindings) : old.Refines new := by
  refine ⟨fun name hname => ?_, fun name hname => ?_⟩
  · rwa [Frame.declares, h]
  · rwa [← h]

theorem insert (frame : Frame) (name : String) (v : Variable) :
    frame.Refines { frame with bindings := Ordered.insert name (.own v) frame.bindings } := by
  refine ⟨fun other hother => ?_, fun other hother => ?_⟩
  · rw [declares_iff] at hother ⊢
    exact (frame.grows_insert name v).names.subset hother
  · by_cases heq : other = name
    · subst heq
      rw [Ordered.lookup_insert_self] at hother
      cases hother
    · rwa [Ordered.lookup_insert_of_ne heq] at hother

end Frame.Refines

/-- Frame by frame, a change that keeps names. -/
abbrev FramesRefine (old new : List Frame) : Prop :=
  List.Forall₂ Frame.Refines old new

theorem FramesRefine.refl (frames : List Frame) : FramesRefine frames frames :=
  List.forall₂_same.mpr fun frame _ => Frame.Refines.refl frame

theorem FramesRefine.modifyHead {change : Frame → Frame} (h : ∀ frame : Frame, frame.Refines (change frame))
    (frames : List Frame) : FramesRefine frames (frames.modifyHead change) := by
  cases frames with
  | nil => exact .nil
  | cons frame below => exact .cons (h frame) (refl below)

theorem modifyVariable_refines (name : String) (change : Variable → Variable) (frames : List Frame) :
    FramesRefine frames (modifyVariable name change frames) := by
  fun_induction modifyVariable name change frames with
  | case1 => exact .nil
  | case2 frame below v _ => exact .cons (.insert frame name _) (FramesRefine.refl below)
  | case3 frame below _ ih => exact .cons (.refl frame) ih
  | case4 frame below _ => exact FramesRefine.refl _

theorem touchVariable_refines (token : Token) (change : Variable → Variable) (frames : List Frame) :
    FramesRefine frames (touchVariable token change frames) := by
  fun_cases touchVariable token change frames with
  | case1 => exact .nil
  | case2 frame below _ => exact modifyVariable_refines _ _ _
  | case3 frame below _ => exact .cons (.insert frame _ _) (FramesRefine.refl below)

theorem VariableStep.refines {level : Nat} {old new : ScopeStack} (h : VariableStep level old new) :
    FramesRefine old.frames new.frames := by
  have hfrom : ∀ change : List Frame → List Frame, (∀ frames, FramesRefine frames (change frames)) →
      FramesRefine old.frames (old.modifyFrom level change).frames := by
    intro change hchange
    have happend : FramesRefine (old.frames.take level ++ old.frames.drop level) (old.modifyFrom level change).frames :=
      List.rel_append (FramesRefine.refl (old.frames.take level)) (hchange (old.frames.drop level))
    rwa [List.take_append_drop] at happend
  cases h with
  | modify name change _ => exact hfrom _ (modifyVariable_refines name change)
  | touch token change _ => exact hfrom _ (touchVariable_refines token change)
  | bind v => exact FramesRefine.modifyHead (fun frame => .insert frame _ _) _
  | noteType name type =>
      have hnote : ∀ frame : Frame, frame.Refines (frame.noteType name type) := fun _ => .of_bindings rfl
      exact FramesRefine.modifyHead hnote _

namespace Resolved

theorem of_refines {old new : List Frame} (h : Resolved old) (hrefines : FramesRefine old new) : Resolved new := by
  induction h generalizing new with
  | nil =>
      cases hrefines
      exact .nil
  | cons head _ ih =>
      cases hrefines with
      | @cons _ frame _ below hframe hbelow =>
          refine .cons (fun name hname => ?_) (ih hbelow)
          obtain ⟨next, hnext, hdeclares⟩ := head name (hframe.enclosing name hname)
          cases hbelow with
          | nil => cases hnext
          | cons hlower _ =>
              obtain rfl := Option.some.inj hnext
              exact ⟨_, rfl, hlower.declares name hdeclares⟩

theorem of_suffix {frames below : List Frame} (h : Resolved frames) (hsuffix : below <:+ frames) : Resolved below := by
  induction h with
  | nil =>
      rw [List.suffix_nil.mp hsuffix]
      exact .nil
  | cons head tail ih =>
      rcases List.suffix_cons_iff.mp hsuffix with rfl | hsuffix
      · exact .cons head tail
      · exact ih hsuffix

theorem of_steps {level : Nat} {old new : ScopeStack} (h : Resolved old.frames) (hsteps : VariableSteps level old new) :
    Resolved new.frames := by
  induction hsteps with
  | refl => exact h
  | tail _ hstep ih => exact ih.of_refines hstep.refines

/-- **A known name has its variable.** -/
theorem exists_variable {frames : List Frame} {frame : Frame} {name : String} (h : Resolved frames)
    (hframe : frames.head? = some frame) (hname : frame.declares name) : ∃ v, findVariable? name frames = some v := by
  induction h generalizing frame with
  | nil => cases hframe
  | @cons top below head _ ih =>
      obtain rfl : top = frame := Option.some.inj hframe
      cases hlookup : top.bindings.lookup name with
      | none => exact absurd hname (Frame.lookup_eq_none_iff.mp hlookup)
      | some binding =>
          cases binding with
          | own v => exact ⟨v, by simp [findVariable?, hlookup]⟩
          | enclosing =>
              obtain ⟨next, hnext, hdeclares⟩ := head name hlookup
              obtain ⟨v, hv⟩ := ih hnext hdeclares
              exact ⟨v, by simp [findVariable?, hlookup, hv]⟩

end Resolved

namespace ScanContext

variable (ctx : ScanContext)

theorem resolved_perform (c : Command) {st : ScanState} (h : Resolved st.scopes.frames) :
    Resolved (ctx.perform c st).scopes.frames := by
  by_cases hc : c.isPlain ∨ c.isHeader
  · exact h.of_steps (ctx.perform_steps hc st)
  cases c with
  | applySwitch i =>
      show Resolved (ctx.applySwitch i st).scopes.frames
      rw [ctx.applySwitch_scopes]
      exact h.of_refines (ScopeStack.applyPending_forall₂ .refl (fun _ => .of_bindings rfl) i)
  | dropFinished i => exact h.of_suffix (dropFinishedFrames_suffix i _)
  | forgetAnnotations i =>
      dsimp only [perform]
      split <;> exact h
  | schedule trigger effectiveAt => exact h
  | openFunction => exact .cons (by simp) h
  | openArrow endIndex =>
      dsimp only [perform, ScanState.onScopes]
      split
      next outer houter =>
        refine .cons (fun name hname => ⟨outer, ?_, ?_⟩) h
        · rwa [List.head?_eq_getElem?]
        · -- every name of an arrow function's scope comes from the scope around it
          have hkey : (name, Binding.enclosing) ∈ (outer.inner endIndex).bindings := Ordered.mem_of_lookup hname
          rw [Frame.declares_iff, Frame.names, Ordered.keys]
          obtain ⟨entry, hentry, heq⟩ := List.mem_map.mp hkey
          exact List.mem_map.mpr ⟨entry, hentry, congrArg Prod.fst heq⟩
      next => exact h
  | endAt endIndex =>
      have hend : ∀ frame : Frame, frame.Refines { frame with endIndex := endIndex } := fun _ => .of_bindings rfl
      exact h.of_refines (FramesRefine.modifyHead hend _)
  | discard => exact h.of_suffix (List.tail_suffix _)
  | _ => simp [Command.isPlain, Command.isHeader] at hc

/-- **At every moment each known name has its variable.** -/
theorem stateAt_resolved (k : Nat) : Resolved (ctx.stateAt k).scopes.frames := by
  refine ctx.stateAt_induction (P := fun st => Resolved st.scopes.frames) (Nat.zero_le k) ?_
    fun _ c _ => ctx.resolved_perform c
  rw [stateAt_zero]
  exact .cons (by simp) .nil

/-- There is a scope left after a command that finds the frames that it refers to. -/
theorem depth_perform {c : Command} {st : ScanState} (h : c.reach < st.scopes.depth) :
    0 < (ctx.perform c st).scopes.depth := by
  have hpos : 0 < st.scopes.depth := Nat.zero_lt_of_lt h
  have hstep := ctx.perform_scopes c st
  generalize (ctx.perform c st).scopes = new at hstep ⊢
  cases hstep with
  | grow hframes =>
      show 0 < new.frames.length
      rwa [← hframes.length_eq]
  | schedule => exact hpos
  | switch i =>
      show 0 < (st.scopes.applyPending i).1.frames.length
      rwa [← (ScopeStack.applyPending_evolves i).length_eq]
  | drop i => exact List.length_pos_iff.mpr (dropFinishedFrames_ne_nil i (List.length_pos_iff.mp hpos))
  | openFunction => exact Nat.succ_pos _
  | openArrow => exact Nat.succ_pos _
  | endAt endIndex =>
      show 0 < (st.scopes.frames.modifyHead _).length
      rwa [List.length_modifyHead]
  | discard =>
      show 0 < st.scopes.frames.tail.length
      rw [List.length_tail]
      exact Nat.sub_pos_of_lt h

theorem depth_stateAt (k : Nat) : 0 < (ctx.stateAt k).scopes.depth := by
  refine ctx.stateAt_induction (P := fun st => 0 < st.scopes.depth) (Nat.zero_le k) ?_
    fun _ _ hk _ => ctx.depth_perform (ctx.reach_lt_depth hk)
  rw [stateAt_zero]
  decide

end ScanContext

/-! ## One assignment -/

/-- Frame by frame, the names other than `name` are bound as before. -/
abbrev SameBut (name : String) (old new : List Frame) : Prop :=
  List.Forall₂ (fun a b : Frame => ∀ other, other ≠ name → b.bindings.lookup other = a.bindings.lookup other) old new

theorem SameBut.refl (name : String) (frames : List Frame) : SameBut name frames frames :=
  List.forall₂_same.mpr fun _ _ _ _ => rfl

theorem SameBut.findVariable? {name other : String} {old new : List Frame} (h : SameBut name old new)
    (hother : other ≠ name) : findVariable? other new = findVariable? other old := by
  induction h with
  | nil => rfl
  | cons hframe _ ih => rw [Unassigned.findVariable?, Unassigned.findVariable?, hframe other hother, ih]

theorem sameBut_modifyVariable (name : String) (change : Variable → Variable) (frames : List Frame) :
    SameBut name frames (modifyVariable name change frames) := by
  fun_induction modifyVariable name change frames with
  | case1 => exact .nil
  | case2 frame below v _ =>
      exact .cons (fun other hother => Ordered.lookup_insert_of_ne hother _ _) (SameBut.refl name below)
  | case3 frame below _ ih => exact .cons (fun _ _ => rfl) ih
  | case4 frame below _ => exact SameBut.refl name _

theorem sameBut_touchVariable {token : Token} {change : Variable → Variable}
    (htoken : ∀ v, (change v).token = v.token) (frames : List Frame) :
    SameBut token.text frames (touchVariable token change frames) := by
  fun_cases touchVariable token change frames with
  | case1 => exact .nil
  | case2 frame below _ => exact sameBut_modifyVariable _ _ _
  | case3 frame below _ =>
      have hname : (change { token := token }).name = token.text := by rw [Variable.name, htoken]
      refine .cons (fun other hother => ?_) (SameBut.refl _ below)
      rw [Frame.bind, hname]
      exact Ordered.lookup_insert_of_ne hother _ _

theorem findVariable?_modifyVariable (name : String) (change : Variable → Variable) (frames : List Frame) :
    findVariable? name (modifyVariable name change frames) = (findVariable? name frames).map change := by
  fun_induction modifyVariable name change frames with
  | case1 => rfl
  | case2 frame below v h => simp [findVariable?, h, Ordered.lookup_insert_self]
  | case3 frame below h ih => simp [findVariable?, h, ih]
  | case4 frame below h => simp [findVariable?, h]

/-- A variable that is touched is there afterwards, with the change made to it. -/
theorem findVariable?_touchVariable {token : Token} {change : Variable → Variable}
    (htoken : ∀ v, (change v).token = v.token) {frames : List Frame} (hne : frames ≠ []) (hresolved : Resolved frames) :
    ∃ v, findVariable? token.text (touchVariable token change frames) = some (change v) := by
  obtain ⟨frame, below, rfl⟩ := List.exists_cons_of_ne_nil hne
  rw [touchVariable]
  split
  · next hdeclares =>
      obtain ⟨v, hv⟩ := hresolved.exists_variable rfl hdeclares
      exact ⟨{ v with token }, by rw [findVariable?_modifyVariable, hv]; rfl⟩
  · have hname : (change { token := token }).name = token.text := by rw [Variable.name, htoken]
    refine ⟨{ token := token }, ?_⟩
    rw [Frame.bind, hname]
    simp [findVariable?, Ordered.lookup_insert_self]

/-- The variable has a value that was not read. -/
def Variable.markAssigned (v : Variable) : Variable :=
  { v with status := .assigned }

theorem Variable.token_markAssigned (v : Variable) : v.markAssigned.token = v.token := rfl

namespace ScopeStack

/-- The stack after an assignment in the current scope. -/
def assigned (stack : ScopeStack) (token : Token) : ScopeStack :=
  stack.touch 0 token Variable.markAssigned

/-- The stack after assignments in the current scope, one after the other. -/
def assignAll (stack : ScopeStack) (tokens : List Token) : ScopeStack :=
  tokens.foldl assigned stack

variable {stack : ScopeStack} {tokens : List Token} {name : String}

theorem frames_assigned (stack : ScopeStack) (token : Token) :
    (stack.assigned token).frames = touchVariable token Variable.markAssigned stack.frames := rfl

theorem depth_assigned (stack : ScopeStack) (token : Token) : (stack.assigned token).depth = stack.depth := by
  rw [depth, depth, frames_assigned, (touchVariable_grow token _ stack.frames).length_eq]

theorem resolved_assigned (h : Resolved stack.frames) (token : Token) : Resolved (stack.assigned token).frames := by
  rw [frames_assigned]
  exact h.of_refines (touchVariable_refines token _ stack.frames)

theorem sameBut_assigned (stack : ScopeStack) (token : Token) :
    SameBut token.text stack.frames (stack.assigned token).frames := by
  rw [frames_assigned]
  exact sameBut_touchVariable Variable.token_markAssigned stack.frames

/-- The variables of other names are left as they are, in all scopes. -/
theorem find?_assigned_of_ne {token : Token} (h : name ≠ token.text) (level : Nat) :
    (stack.assigned token).find? level name = stack.find? level name :=
  SameBut.findVariable? (List.forall₂_drop level (stack.sameBut_assigned token)) h

theorem status_assigned (hdepth : 0 < stack.depth) (hresolved : Resolved stack.frames) (token : Token) :
    ((stack.assigned token).find? 0 token.text).map Variable.status = some .assigned := by
  obtain ⟨v, hv⟩ := findVariable?_touchVariable Variable.token_markAssigned (List.length_pos_iff.mp hdepth) hresolved
  rw [find?, List.drop_zero, frames_assigned, hv]
  rfl

theorem declares_assigned (hdepth : 0 < stack.depth) (token : Token) :
    (stack.assigned token).declares 0 name ↔ stack.declares 0 name ∨ name = token.text := by
  by_cases hname : name = token.text
  · subst hname
    exact iff_of_true (declares_touch hdepth token Variable.token_markAssigned) (.inr rfl)
  · have hframes := stack.sameBut_assigned token
    unfold declares frame?
    generalize stack.frames = old, (stack.assigned token).frames = new at hframes ⊢
    cases hframes with
    | nil => simp [hname]
    | cons hframe _ =>
        have hsame := hframe name hname
        simp only [List.getElem?_cons_zero, Option.any_some, hname, or_false]
        rw [← not_iff_not, ← Frame.lookup_eq_none_iff, ← Frame.lookup_eq_none_iff, hsame]

/-- The variables of other names are left as they are, in all scopes. -/
theorem find?_assignAll_of_not_mem (h : name ∉ tokens.map Token.text) (level : Nat) :
    (stack.assignAll tokens).find? level name = stack.find? level name := by
  induction tokens generalizing stack with
  | nil => rfl
  | cons token tokens ih =>
      rw [List.map_cons, List.mem_cons, not_or] at h
      exact (ih h.2).trans (find?_assigned_of_ne h.1 level)

theorem declares_assignAll (hdepth : 0 < stack.depth) :
    (stack.assignAll tokens).declares 0 name ↔ stack.declares 0 name ∨ name ∈ tokens.map Token.text := by
  induction tokens generalizing stack with
  | nil => simp [assignAll]
  | cons token tokens ih =>
      show ((stack.assigned token).assignAll tokens).declares 0 name ↔ _
      rw [ih (by rwa [stack.depth_assigned]), declares_assigned hdepth, List.map_cons, List.mem_cons, or_assoc]

/-- **The variables that are assigned** are those of the tokens. -/
theorem status_assignAll (hdepth : 0 < stack.depth) (hresolved : Resolved stack.frames)
    (h : name ∈ tokens.map Token.text) :
    ((stack.assignAll tokens).find? 0 name).map Variable.status = some .assigned := by
  induction tokens generalizing stack with
  | nil => cases h
  | cons token tokens ih =>
      by_cases hrest : name ∈ tokens.map Token.text
      · exact ih (by rwa [stack.depth_assigned]) (resolved_assigned hresolved token) hrest
      · obtain rfl : name = token.text := by simpa [hrest] using h
        show (((stack.assigned token).assignAll tokens).find? 0 token.text).map Variable.status = _
        rw [find?_assignAll_of_not_mem hrest]
        exact status_assigned hdepth hresolved token

end ScopeStack

end Unassigned
