import Unassigned.Proofs.Heights

/-!
# `Proofs.FileVariable` — the variables of the file scope, command by command

A name can stand for a variable of the file scope in the file scope itself, and in an arrow function there, or in an
arrow function of that, which share the variables around them (`standsForLast`). What a command does to a variable of
the file scope is said here exactly: it **assigns** it, it **uses** its value, or it leaves it as it is
(`fileStatus_perform`).

`assigned?` and `checked?` say which variable a command is about in a state; the level is that of the command.
-/

namespace Unassigned

/-! ## The last of some frames -/

/-- The variable that a name stands for in the last of the frames. -/
def lastVariable? (name : String) (frames : List Frame) : Option Variable :=
  findVariable? name (frames.drop (frames.length - 1))

/-- In the first of the frames the name stands for a variable of the last. -/
def standsForLast (name : String) : List Frame → Bool
  | [] => false
  | [frame] => frame.declares name
  | frame :: next :: below =>
    frame.bindings.lookup name == some .enclosing && standsForLast name (next :: below)

theorem lastVariable?_singleton (name : String) (frame : Frame) :
    lastVariable? name [frame] = findVariable? name [frame] := rfl

/-- Frames on top do not matter. -/
theorem lastVariable?_append (name : String) (upper : List Frame) {lower : List Frame} (hne : lower ≠ []) :
    lastVariable? name (upper ++ lower) = lastVariable? name lower := by
  have hpos := List.length_pos_iff.mpr hne
  unfold lastVariable?
  rw [List.length_append, Nat.add_sub_assoc hpos, List.drop_length_add_append]

variable {frames : List Frame} {name : String}

theorem lastVariable?_of_suffix (name : String) {frames' : List Frame} (h : frames' <:+ frames) (hne : frames' ≠ []) :
    lastVariable? name frames' = lastVariable? name frames := by
  obtain ⟨upper, rfl⟩ := h
  exact (lastVariable?_append name upper hne).symm

theorem lastVariable?_cons (name : String) (frame : Frame) {below : List Frame} (hne : below ≠ []) :
    lastVariable? name (frame :: below) = lastVariable? name below :=
  lastVariable?_append name [frame] hne

theorem lastVariable?_cons_cons (name : String) (frame next : Frame) (below : List Frame) :
    lastVariable? name (frame :: next :: below) = lastVariable? name (next :: below) :=
  lastVariable?_cons name frame (List.cons_ne_nil next below)

/-- What happens to a frame on top does not matter. -/
theorem lastVariable?_modifyHead (name : String) {change : Frame → Frame}
    (h : 1 < frames.length ∨ ∀ frame, (change frame).bindings = frame.bindings) :
    lastVariable? name (frames.modifyHead change) = lastVariable? name frames := by
  match frames with
  | [] => rfl
  | [frame] =>
      rcases h with h | h
      · simp at h
      · simp [lastVariable?_singleton, findVariable?, h]
  | frame :: next :: below =>
      rw [List.modifyHead_cons, lastVariable?_cons_cons, lastVariable?_cons_cons]

theorem findVariable?_insert (frame : Frame) (name other : String) (v : Variable) :
    findVariable? name [{ frame with bindings := Ordered.insert other (.own v) frame.bindings }]
      = if other = name then some v else findVariable? name [frame] := by
  by_cases h : other = name
  · subst h
    simp [findVariable?, Ordered.lookup_insert_self]
  · simp only [findVariable?, if_neg h]
    rw [Ordered.lookup_insert_of_ne (Ne.symm h)]

theorem Frame.lookup_eq_none_iff {frame : Frame} {name : String} :
    frame.bindings.lookup name = none ↔ ¬ frame.declares name := by
  unfold declares Ordered.hasKey
  rw [List.lookup_eq_none_iff, Bool.not_eq_true, List.any_eq_false]
  refine forall₂_congr fun entry _ => ?_
  rw [bne_iff_ne, decide_eq_true_eq]
  exact ne_comm

theorem Frame.declares_of_lookup {frame : Frame} {binding : Binding} (h : frame.bindings.lookup name = some binding) :
    frame.declares name := by
  by_contra hnot
  cases h.symm.trans (lookup_eq_none_iff.mpr hnot)

theorem modifyVariable_ne_nil (name : String) (change : Variable → Variable) (h : frames ≠ []) :
    modifyVariable name change frames ≠ [] := by
  have hlength := (modifyVariable_grow name change frames).length_eq
  exact List.length_pos_iff.mp (hlength ▸ List.length_pos_iff.mpr h)

theorem touchVariable_ne_nil (token : Token) (change : Variable → Variable) (h : frames ≠ []) :
    touchVariable token change frames ≠ [] := by
  have hlength := (touchVariable_grow token change frames).length_eq
  exact List.length_pos_iff.mp (hlength ▸ List.length_pos_iff.mpr h)

/-- A variable of the last frame is changed if the name stands for it. -/
theorem lastVariable?_modifyVariable (name other : String) (change : Variable → Variable) (frames : List Frame) :
    lastVariable? name (modifyVariable other change frames)
      = if other = name ∧ standsForLast name frames then (lastVariable? name frames).map change
        else lastVariable? name frames := by
  fun_induction modifyVariable other change frames with
  | case1 => simp [standsForLast]
  | case2 frame below v h =>
      cases below with
      | nil =>
          rw [lastVariable?_singleton, findVariable?_insert, standsForLast]
          by_cases hname : other = name
          · subst hname
            rw [if_pos rfl, if_pos ⟨rfl, Frame.declares_of_lookup h⟩, lastVariable?_singleton]
            simp [findVariable?, h]
          · rw [if_neg hname, if_neg (fun hboth => hname hboth.1), lastVariable?_singleton]
      | cons next below =>
          rw [lastVariable?_cons_cons, lastVariable?_cons_cons, if_neg]
          rintro ⟨rfl, hstands⟩
          simp [standsForLast, h] at hstands
  | case3 frame below h ih =>
      cases below with
      | nil =>
          by_cases hname : other = name
          · subst hname
            simp [modifyVariable, lastVariable?_singleton, findVariable?, h]
          · rw [if_neg (fun hboth => hname hboth.1)]
            rfl
      | cons next below =>
          have hne := modifyVariable_ne_nil other change (List.cons_ne_nil next below)
          rw [lastVariable?_cons name _ hne, ih, lastVariable?_cons_cons]
          refine if_congr (and_congr_right ?_) rfl rfl
          rintro rfl
          simp [standsForLast, h]
  | case4 frame below h =>
      rw [if_neg]
      rintro ⟨rfl, hstands⟩
      cases below with
      | nil => exact Frame.lookup_eq_none_iff.mp h hstands
      | cons next below => simp [standsForLast, h] at hstands

/-- A name that stands for a variable of the last frame is known there. -/
theorem exists_of_standsForLast (howns : ∀ file, frames.getLast? = some file → file.OwnsAll)
    (h : standsForLast name frames) : ∃ v, lastVariable? name frames = some v := by
  fun_induction standsForLast name frames with
  | case1 => cases h
  | case2 frame =>
      have howns := howns frame rfl
      cases hlookup : frame.bindings.lookup name with
      | none => exact absurd h (Frame.lookup_eq_none_iff.mp hlookup)
      | some binding =>
          cases binding with
          | own v => exact ⟨v, by simp [lastVariable?_singleton, findVariable?, hlookup]⟩
          | enclosing => exact absurd hlookup (howns name)
  | case3 frame next below ih =>
      rw [lastVariable?_cons_cons]
      exact ih (fun file hfile => howns file (by rwa [List.getLast?_cons_cons])) (Bool.and_eq_true_iff.mp h).2

theorem declares_of_standsForLast {frame : Frame} {below : List Frame} (h : standsForLast name (frame :: below)) :
    frame.declares name := by
  cases below with
  | nil => exact h
  | cons next below => exact Frame.declares_of_lookup (eq_of_beq (Bool.and_eq_true_iff.mp h).1)

/-- A variable of the last frame is given a status if the name stands for it. -/
theorem status_modifyVariable (name other : String) {change : Variable → Variable} {status : Status}
    (hstatus : ∀ v, (change v).status = status) (howns : ∀ file, frames.getLast? = some file → file.OwnsAll) :
    (lastVariable? name (modifyVariable other change frames)).map Variable.status
      = if other = name ∧ standsForLast name frames then some status
        else (lastVariable? name frames).map Variable.status := by
  rw [lastVariable?_modifyVariable]
  split
  · next h =>
      obtain ⟨v, hv⟩ := exists_of_standsForLast howns h.2
      rw [hv, Option.map_some, Option.map_some, hstatus]
  · rfl

/-- A variable of the last frame is assigned if the name stands for it, or if there is no other frame. -/
theorem status_touchVariable (name : String) {token : Token} {change : Variable → Variable} {status : Status}
    (htoken : ∀ v, (change v).token = v.token) (hstatus : ∀ v, (change v).status = status)
    (howns : ∀ file, frames.getLast? = some file → file.OwnsAll) :
    (lastVariable? name (touchVariable token change frames)).map Variable.status
      = if token.text = name ∧ (frames.length = 1 ∨ standsForLast name frames) then some status
        else (lastVariable? name frames).map Variable.status := by
  cases frames with
  | nil => simp [touchVariable, standsForLast]
  | cons frame below =>
      rw [touchVariable]
      split
      · next hdeclares =>
          -- a known name: the last frame is reached if the name stands for a variable there
          have hreach : token.text = name ∧ ((frame :: below).length = 1 ∨ standsForLast name (frame :: below))
              ↔ token.text = name ∧ standsForLast name (frame :: below) := by
            refine and_congr_right ?_
            rintro rfl
            refine or_iff_right_of_imp fun hlength => ?_
            obtain rfl : below = [] := by simpa using hlength
            exact hdeclares
          rw [status_modifyVariable name token.text (fun v => hstatus _) howns, if_congr hreach rfl rfl]
      · next hdeclares =>
          cases below with
          | nil =>
              have hname : (change { token := token }).name = token.text := by rw [Variable.name, htoken]
              rw [lastVariable?_singleton, Frame.bind, findVariable?_insert, hname]
              by_cases h : token.text = name
              · rw [if_pos h, if_pos ⟨h, .inl rfl⟩, Option.map_some, hstatus]
              · rw [if_neg h, if_neg (fun hboth => h hboth.1), lastVariable?_singleton]
          | cons next below =>
              rw [lastVariable?_cons_cons, lastVariable?_cons_cons, if_neg]
              rintro ⟨rfl, hlength | hstands⟩
              · simp at hlength
              · exact hdeclares (declares_of_standsForLast hstands)

/-- In the last frame, every variable is the one of its name. -/
def LastNamed (frames : List Frame) : Prop :=
  ∀ name v, lastVariable? name frames = some v → v.name = name

theorem LastNamed.modifyVariable {frames : List Frame} (h : LastNamed frames) {other : String}
    {change : Variable → Variable} (hname : ∀ v, v.name = other → (change v).name = other) :
    LastNamed (modifyVariable other change frames) := by
  intro name v hv
  rw [lastVariable?_modifyVariable] at hv
  split at hv
  · next hother =>
      obtain ⟨before, hbefore, rfl⟩ := Option.map_eq_some_iff.mp hv
      obtain rfl := hother.1
      exact hname before (h other before hbefore)
  · exact h name v hv

/-- A variable that is bound is the one of its name. -/
theorem LastNamed.bind {frame : Frame} {below : List Frame} (h : LastNamed (frame :: below)) (v : Variable) :
    LastNamed (frame.bind v :: below) := by
  cases below with
  | nil =>
      intro name found hfound
      rw [lastVariable?_singleton, Frame.bind, findVariable?_insert] at hfound
      split at hfound
      · next hname =>
          obtain rfl := Option.some.inj hfound
          exact hname
      · exact h name found hfound
  | cons next below =>
      intro name found hfound
      rw [lastVariable?_cons_cons] at hfound
      exact h name found (by rwa [lastVariable?_cons_cons])

theorem LastNamed.touchVariable {frames : List Frame} (h : LastNamed frames) {token : Token}
    {change : Variable → Variable} (htoken : ∀ v, (change v).token = v.token) :
    LastNamed (touchVariable token change frames) := by
  cases frames with
  | nil => exact h
  | cons frame below =>
      rw [Unassigned.touchVariable]
      split
      · exact h.modifyVariable fun v _ => by rw [Variable.name, htoken]
      · exact h.bind _

/-! ## The file scope of a stack -/

namespace ScopeStack

variable (stack : ScopeStack)

/-- The status of the variable that a name stands for in the file scope. -/
def fileStatus (name : String) : Option Status :=
  (lastVariable? name stack.frames).map Variable.status

/-- A name stands in the scope at this level for a variable of the file scope. -/
abbrev SharesFile (level : Nat) (name : String) : Prop :=
  standsForLast name (stack.frames.drop level)

/-- No name of the file scope stands for a variable of a frame below. -/
def FileOwns : Prop :=
  ∀ file, stack.frames.getLast? = some file → file.OwnsAll

variable {stack} {level : Nat} {name : String}
variable {new : ScopeStack}

theorem drop_ne_nil (hlevel : level < stack.depth) : stack.frames.drop level ≠ [] := by
  simpa [depth] using hlevel

theorem FileOwns.drop (h : stack.FileOwns) (hlevel : level < stack.depth) :
    ∀ file, (stack.frames.drop level).getLast? = some file → file.OwnsAll := by
  intro file hfile
  have hshort : ¬ stack.frames.length ≤ level := Nat.not_le.mpr hlevel
  rw [List.getLast?_drop, if_neg hshort] at hfile
  exact h file hfile

theorem lastVariable?_drop (hlevel : level < stack.depth) :
    lastVariable? name (stack.frames.drop level) = lastVariable? name stack.frames :=
  lastVariable?_of_suffix name (List.drop_suffix level _) (drop_ne_nil hlevel)

theorem declares_of_sharesFile (hlevel : level < stack.depth) (h : stack.SharesFile level name) :
    stack.declares level name := by
  have hframe : stack.frame? level = some stack.frames[level] := List.getElem?_eq_getElem hlevel
  rw [SharesFile, List.drop_eq_getElem_cons hlevel] at h
  rw [declares, hframe]
  exact declares_of_standsForLast h

theorem getLast?_eq_atHeight : stack.frames.getLast? = stack.atHeight 0 := by
  rw [atHeight, ← List.head?_eq_getElem?, List.head?_reverse]

theorem lastNamed_drop_iff (hlevel : level < stack.depth) :
    LastNamed (stack.frames.drop level) ↔ LastNamed stack.frames := by
  unfold LastNamed
  simp only [lastVariable?_drop hlevel]

theorem lastNamed_modifyFrom {change : List Frame → List Frame} (hne : change (stack.frames.drop level) ≠ [])
    (h : LastNamed (change (stack.frames.drop level))) : LastNamed (stack.modifyFrom level change).frames := by
  intro name v hv
  exact h name v (by rwa [← lastVariable?_append name (stack.frames.take level) hne])

/-- A command keeps the file scope on its own. -/
theorem FileOwns.of_scopeStep {c : Command} (h : stack.FileOwns) (hstep : ScopeStep c stack new)
    (hdepth : 0 < stack.depth) : new.FileOwns := by
  have hframes := ScopeStep.frames (R := fun a b => a.OwnsAll → b.OwnsAll) (fun _ => id)
    (fun _ _ hgrow => hgrow.ownsAll) (fun _ => id) (fun _ _ => id) hstep
  intro file hfile
  rw [getLast?_eq_atHeight] at hfile
  obtain ⟨before, hbefore⟩ : ∃ before, stack.atHeight 0 = some before :=
    ⟨_, List.getElem?_eq_getElem (by simpa [depth] using hdepth)⟩
  obtain ⟨after, hafter, howns⟩ :=
    atHeight_of_frames (fun _ => id) hframes hbefore (lt_depth_of_atHeight hfile)
  obtain rfl : after = file := Option.some.inj (hafter.symm.trans hfile)
  exact howns (h before (by rw [getLast?_eq_atHeight, hbefore]))

section

variable {change : Frame → Frame} (hsame : ∀ frame, (change frame).bindings = frame.bindings)

include hsame

theorem declares_modifyTop : (stack.modifyTop change).declares 0 name = stack.declares 0 name := by
  unfold declares frame? modifyTop Frame.declares
  cases stack.frames with
  | nil => rfl
  | cons frame below => simp [hsame]

omit hsame in
theorem modeAt_modifyTop (hmode : ∀ frame, (change frame).mode = frame.mode) :
    (stack.modifyTop change).modeAt 0 = stack.modeAt 0 := by
  unfold modeAt frame? modifyTop
  cases stack.frames with
  | nil => rfl
  | cons frame below => simp [hmode]

theorem sharesFile_modifyTop : (stack.modifyTop change).SharesFile 0 name ↔ stack.SharesFile 0 name := by
  unfold SharesFile modifyTop
  match stack.frames with
  | [] => rfl
  | [frame] => simp [standsForLast, Frame.declares, hsame]
  | frame :: next :: below => simp [standsForLast, hsame]

theorem fileStatus_modifyTop : (stack.modifyTop change).fileStatus name = stack.fileStatus name :=
  congrArg _ (lastVariable?_modifyHead name (.inr hsame))

theorem FileOwns.modifyTop (h : stack.FileOwns) : (stack.modifyTop change).FileOwns := by
  unfold FileOwns ScopeStack.modifyTop at *
  match hframes : stack.frames with
  | [] => exact fun _ hfile => nomatch hfile
  | [frame] =>
      rw [hframes] at h
      rintro file ⟨⟩ name
      have hname := h frame rfl name
      rwa [← hsame] at hname
  | frame :: next :: below =>
      rw [hframes] at h
      exact h

end

/-- A change of variables keeps the names of those of the file scope. -/
theorem lastNamed_of_step (h : LastNamed stack.frames) (hlevel : level < stack.depth)
    (hstep : VariableStep level stack new) : LastNamed new.frames := by
  have hdrop := (lastNamed_drop_iff hlevel).mpr h
  cases hstep with
  | modify other change htoken =>
      refine lastNamed_modifyFrom (modifyVariable_ne_nil other change (drop_ne_nil hlevel)) ?_
      exact hdrop.modifyVariable fun v hv => by rwa [Variable.name, htoken]
  | touch token change htoken =>
      exact lastNamed_modifyFrom (touchVariable_ne_nil token change (drop_ne_nil hlevel)) (hdrop.touchVariable htoken)
  | bind v =>
      show LastNamed (stack.frames.modifyHead _)
      generalize stack.frames = frames at h
      cases frames with
      | nil => exact h
      | cons frame below => exact h.bind v
  | noteType other type =>
      intro name v hv
      have hsame : lastVariable? name (stack.frames.modifyHead fun frame => frame.noteType other type)
          = lastVariable? name stack.frames := lastVariable?_modifyHead name (.inr fun _ => rfl)
      exact h name v (hsame.symm.trans hv)

theorem lastNamed_of_steps (h : LastNamed stack.frames) (hlevel : level < stack.depth)
    (hsteps : VariableSteps level stack new) : LastNamed new.frames := by
  induction hsteps with
  | refl => exact h
  | @tail mid new hsteps hstep ih =>
      have hdepth : mid.depth = stack.depth := (VariableSteps.grow hsteps).1.length_eq.symm
      exact lastNamed_of_step ih (hdepth ▸ hlevel) hstep

theorem fileStatus_modifyVar {status : Status} {change : Variable → Variable} (howns : stack.FileOwns)
    (hlevel : level < stack.depth) (hstatus : ∀ v, (change v).status = status) (other : String) :
    (stack.modifyVar level other change).fileStatus name
      = if other = name ∧ stack.SharesFile level name then some status else stack.fileStatus name := by
  have hne := modifyVariable_ne_nil other change (drop_ne_nil hlevel)
  unfold fileStatus
  rw [← lastVariable?_drop hlevel, ← status_modifyVariable name other hstatus (howns.drop hlevel)]
  exact congrArg _ (lastVariable?_append name _ hne)

theorem fileStatus_touch {token : Token} {status : Status} {change : Variable → Variable} (howns : stack.FileOwns)
    (hlevel : level < stack.depth) (htoken : ∀ v, (change v).token = v.token)
    (hstatus : ∀ v, (change v).status = status) : (stack.touch level token change).fileStatus name
      = if token.text = name ∧ (level + 1 = stack.depth ∨ stack.SharesFile level name) then some status
        else stack.fileStatus name := by
  have hne := touchVariable_ne_nil token change (drop_ne_nil hlevel)
  have hone : level + 1 = stack.depth ↔ (stack.frames.drop level).length = 1 := by
    rw [List.length_drop]
    unfold depth at hlevel ⊢
    omega
  rw [if_congr (and_congr_right' (or_congr_left hone)) rfl rfl]
  unfold fileStatus
  rw [← lastVariable?_drop hlevel, ← status_touchVariable name htoken hstatus (howns.drop hlevel)]
  exact congrArg _ (lastVariable?_append name _ hne)

end ScopeStack

/-! ## What a command is about -/

/-- The command checks a variable, which it makes known if it is not. -/
def Command.isCheck : Command → Bool
  | .read _ | .readLeniently _ | .check _ => true
  | _ => false

/-- The command opens, ends, changes or drops frames, or binds a name in a new one. -/
def Command.isFraming : Command → Bool
  | .applySwitch _ | .dropFinished _ | .openFunction | .openArrow _ | .bindParameter _ _ | .endAt _ | .discard => true
  | _ => false

namespace ScanContext

variable (ctx : ScanContext)

/-- The token whose variable a command checks in a state. -/
def checked? (c : Command) (st : ScanState) : Option Token :=
  match c with
  | .read token => if st.consumed.contains token.index || ctx.skipsReads st then none else some token
  | .readLeniently token => if ctx.skipsReads st then none else some token
  | .check token | .checkOuter token => some token
  | .coalesce token => if ctx.isKnown st 0 token.text then some token else none
  | .update token _ isAlone =>
    if !ctx.isKnown st 0 token.text || isAlone || st.consumed.contains token.index || ctx.skipsReads st then none
    else some token
  | _ => none

/-- The token whose variable a command makes known in a state if it is not known in the scope. -/
def introduced? (c : Command) (st : ScanState) : Option Token :=
  match c with
  | .declare token | .declareOuter token => some token
  | .test token => if st.scopes.modeAt 0 == .relaxed then some token else none
  | .applyDocComment token =>
    if (st.annotations.lookup token.text).isSome && st.scopes.modeAt 0 == .relaxed then some token else none
  | .read _ | .readLeniently _ | .check _ =>
    (ctx.checked? c st).filter fun token => !ctx.isPredefined st 0 token.text
  | _ => none

/-- The token whose variable a command assigns in a state, whatever it was, or because it was not known. -/
def assigned? (c : Command) (st : ScanState) : Option Token :=
  match c with
  | .assign token _ | .autovivify token _ | .standAlone token => some token
  | .coalesce token => if ctx.isKnown st 0 token.text then none else some token
  | .update token _ isAlone => if ctx.isKnown st 0 token.text && !isAlone then none else some token
  | c => (ctx.introduced? c st).filter fun token => !st.scopes.declares c.reach token.text

/-- In a state, the command assigns the variable that a name stands for in the file scope. -/
def assignsFile (c : Command) (st : ScanState) (name : String) : Bool :=
  (ctx.assigned? c st).any fun token => token.text = name
    ∧ (c.reach + 1 = st.scopes.depth ∨ st.scopes.SharesFile c.reach name)

/-- In a state, the command uses the variable that a name stands for in the file scope: it checks the variable, and
    the name is not set beforehand. -/
def usesFile (c : Command) (st : ScanState) (name : String) : Bool :=
  (ctx.checked? c st).any fun token => token.text = name ∧ ¬ ctx.isPredefined st c.reach name
    ∧ st.scopes.SharesFile c.reach name

/-- The status that the variable of a name in the file scope is to have after a command. -/
def fileStatusAfter (c : Command) (st : ScanState) (name : String) : Option Status :=
  if ctx.assignsFile c st name then some .assigned
  else if ctx.usesFile c st name then some .used
  else st.scopes.fileStatus name

variable {ctx} {st : ScanState} {level : Nat} {token : Token} {name : String}
variable {c : Command}

/-- A command about frames leaves the variables of the file scope as they are. -/
theorem lastVariable?_of_isFraming (hframing : c.isFraming) (hreach : c.reach < st.scopes.depth)
    (hparameter : c.isParameter → 1 < st.scopes.depth) :
    lastVariable? name (ctx.perform c st).scopes.frames = lastVariable? name st.scopes.frames := by
  have hne : st.scopes.frames ≠ [] := List.length_pos_iff.mp (Nat.zero_lt_of_lt hreach)
  cases c with
  | applySwitch i =>
      show lastVariable? name (ctx.applySwitch i st).scopes.frames = _
      rw [ctx.applySwitch_scopes]
      rcases st.scopes.frames_applyPending i with h | h
      · rw [h]
      · rw [h]
        exact lastVariable?_modifyHead name (.inr fun _ => rfl)
  | dropFinished i =>
      exact lastVariable?_of_suffix name (dropFinishedFrames_suffix i _) (dropFinishedFrames_ne_nil i hne)
  | openFunction => exact lastVariable?_cons name _ hne
  | openArrow endIndex =>
      dsimp only [perform, ScanState.onScopes]
      split
      · exact lastVariable?_cons name _ hne
      · rfl
  | bindParameter token isRef => exact lastVariable?_modifyHead name (.inl (hparameter rfl))
  | endAt endIndex => exact lastVariable?_modifyHead name (.inr fun _ => rfl)
  | discard =>
      have hne' : st.scopes.frames.tail ≠ [] := by
        have hlength : 1 < st.scopes.frames.length := hreach
        rw [← List.length_pos_iff, List.length_tail]
        omega
      exact lastVariable?_of_suffix name (List.tail_suffix _) hne'
  | _ => cases hframing

/-- A command that is about no variable leaves all as they are. -/
theorem fileStatusAfter_of_none (hassigned : ctx.assigned? c st = none) (hchecked : ctx.checked? c st = none) :
    ctx.fileStatusAfter c st name = st.scopes.fileStatus name := by
  simp [fileStatusAfter, assignsFile, usesFile, hassigned, hchecked]

theorem fileStatusAfter_congr {c' : Command} (hreach : c.reach = c'.reach)
    (hassigned : ctx.assigned? c st = ctx.assigned? c' st) (hchecked : ctx.checked? c st = ctx.checked? c' st) :
    ctx.fileStatusAfter c st name = ctx.fileStatusAfter c' st name := by
  unfold fileStatusAfter assignsFile usesFile
  rw [hreach, hassigned, hchecked]

theorem assigned?_of_isCheck (hc : c.isCheck) : ctx.assigned? c st
    = (ctx.checked? c st).bind fun token => if ctx.isKnown st 0 token.text then none else some token := by
  have hfilter : ∀ checked : Option Token,
      (checked.filter fun token => !ctx.isPredefined st 0 token.text).filter
          (fun token => !st.scopes.declares 0 token.text)
        = checked.bind fun token => if ctx.isKnown st 0 token.text then none else some token := by
    rintro (_ | token)
    · rfl
    · cases hpre : ctx.isPredefined st 0 token.text <;> cases hdeclares : st.scopes.declares 0 token.text <;>
        simp [isKnown, Option.filter, hpre, hdeclares]
  cases c with
  | read token => exact hfilter (ctx.checked? (.read token) st)
  | readLeniently token => exact hfilter (ctx.checked? (.readLeniently token) st)
  | check token => exact hfilter (some token)
  | _ => cases hc

theorem fileStatusAfter_of_unchecked (hc : c.isCheck) (hchecked : ctx.checked? c st = none) :
    ctx.fileStatusAfter c st name = st.scopes.fileStatus name := by
  refine fileStatusAfter_of_none ?_ hchecked
  rw [assigned?_of_isCheck hc, hchecked, Option.bind_none]

variable (howns : st.scopes.FileOwns)

include howns

theorem fileStatus_assignWith (hlevel : level < st.scopes.depth) {change : Variable → Variable}
    (htoken : ∀ v, (change v).token = v.token) (hstatus : ∀ v, (change v).status = v.status) :
    (st.assignWith level token change).scopes.fileStatus name
      = if token.text = name ∧ (level + 1 = st.scopes.depth ∨ st.scopes.SharesFile level name) then some .assigned
        else st.scopes.fileStatus name :=
  ScopeStack.fileStatus_touch howns hlevel (fun _ => htoken _) (fun _ => hstatus _)

theorem fileStatus_assign (hlevel : level < st.scopes.depth) : (st.assign level token).scopes.fileStatus name
    = if token.text = name ∧ (level + 1 = st.scopes.depth ∨ st.scopes.SharesFile level name) then some .assigned
      else st.scopes.fileStatus name :=
  fileStatus_assignWith howns hlevel (fun _ => rfl) (fun _ => rfl)

theorem fileStatus_declare (hlevel : level < st.scopes.depth) : (st.declare level token).scopes.fileStatus name
    = if ¬ st.scopes.declares level token.text ∧ token.text = name
          ∧ (level + 1 = st.scopes.depth ∨ st.scopes.SharesFile level name) then some .assigned
      else st.scopes.fileStatus name := by
  unfold ScanState.declare
  split
  · next h => rw [if_neg (fun hboth => hboth.1 h)]
  · next h =>
      rw [fileStatus_assign howns hlevel]
      exact if_congr (and_iff_right h).symm rfl rfl

/-- A check uses a variable that is known, and can make known one that is not. -/
theorem fileStatus_check (hlevel : level < st.scopes.depth) (lenient create : Bool) :
    (ctx.check token lenient level create st).scopes.fileStatus name
      = if create ∧ ¬ ctx.isPredefined st level token.text ∧ ¬ st.scopes.declares level token.text
            ∧ token.text = name ∧ (level + 1 = st.scopes.depth ∨ st.scopes.SharesFile level name) then some .assigned
        else if token.text = name ∧ ¬ ctx.isPredefined st level name ∧ st.scopes.SharesFile level name then some .used
        else st.scopes.fileStatus name := by
  unfold check
  split
  · next hpre =>
      rw [if_neg (fun h => h.2.1 hpre), if_neg]
      rintro ⟨rfl, h, _⟩
      exact h hpre
  · next hpre =>
      split
      · next hdeclares =>
          rw [if_neg (fun h => h.2.2.1 hdeclares)]
          have hused : ∀ v : Variable, ({ v with status := .used } : Variable).status = .used := fun _ => rfl
          refine (ScopeStack.fileStatus_modifyVar howns hlevel hused _).trans ?_
          refine if_congr (and_congr_right ?_) rfl rfl
          rintro rfl
          exact (and_iff_right hpre).symm
      · next hdeclares =>
          have hnot : ¬ (token.text = name ∧ ¬ ctx.isPredefined st level name ∧ st.scopes.SharesFile level name) := by
            rintro ⟨rfl, _, hshares⟩
            exact hdeclares (ScopeStack.declares_of_sharesFile hlevel hshares)
          -- what is reported does not matter
          have hreported : ∀ reported : ScanState, reported.scopes = st.scopes →
              (if create then reported.assign level token else reported).scopes.fileStatus name
                = if create ∧ token.text = name ∧ (level + 1 = st.scopes.depth ∨ st.scopes.SharesFile level name)
                  then some .assigned else st.scopes.fileStatus name := by
            intro reported heq
            cases create with
            | false => simp [heq]
            | true =>
                rw [if_pos rfl, fileStatus_assign (heq ▸ howns) (heq ▸ hlevel), heq]
                exact if_congr (and_iff_right rfl).symm rfl rfl
          rw [if_neg hnot]
          refine (hreported _ ?_).trans (if_congr ?_ rfl rfl)
          · split <;> exact ctx.report_scopes _ _ _ st
          · simp [hpre, hdeclares]

/-- A check is what a command does that checks the variable, and assigns it if it is not known. -/
theorem fileStatus_of_checked (hreach : c.reach = 0) (hlevel : 0 < st.scopes.depth)
    (hassigned : ctx.assigned? c st = if ctx.isKnown st 0 token.text then none else some token)
    (hchecked : ctx.checked? c st = some token) (lenient : Bool) :
    (ctx.check token lenient 0 true st).scopes.fileStatus name = ctx.fileStatusAfter c st name := by
  rw [fileStatus_check howns hlevel, fileStatusAfter, assignsFile, usesFile, hassigned, hchecked, hreach]
  refine if_congr ?_ rfl (if_congr ?_ rfl rfl)
  · by_cases hknown : ctx.isKnown st 0 token.text
    · rw [if_pos hknown]
      have hsome : ctx.isPredefined st 0 token.text ∨ st.scopes.declares 0 token.text := Bool.or_eq_true_iff.mp hknown
      refine iff_of_false ?_ (by simp)
      rintro ⟨_, hpre, hdeclares, _⟩
      exact hsome.elim hpre hdeclares
    · rw [if_neg hknown]
      have hnone : ¬ ctx.isPredefined st 0 token.text ∧ ¬ st.scopes.declares 0 token.text := by
        simpa [isKnown] using hknown
      simp [ScopeStack.SharesFile, hnone]
  · simp

/-- An assignment is what a command does that assigns the variable and checks none. -/
theorem fileStatus_of_assigned (hreach : c.reach = 0) (hlevel : 0 < st.scopes.depth)
    (hassigned : ctx.assigned? c st = some token) (hchecked : ctx.checked? c st = none) {reported : ScanState}
    (hreported : reported.scopes = st.scopes) {change : Variable → Variable}
    (htoken : ∀ v, (change v).token = v.token) (hstatus : ∀ v, (change v).status = v.status) :
    (reported.assignWith 0 token change).scopes.fileStatus name = ctx.fileStatusAfter c st name := by
  rw [fileStatus_assignWith (hreported ▸ howns) (hreported ▸ hlevel) htoken hstatus, hreported]
  simp [fileStatusAfter, assignsFile, usesFile, hassigned, hchecked, hreach, ScopeStack.SharesFile]

/-- A command that makes known what it checks. -/
theorem fileStatus_of_isCheck (hc : c.isCheck) (hlevel : 0 < st.scopes.depth)
    (hchecked : ctx.checked? c st = some token) (lenient : Bool) :
    (ctx.check token lenient 0 true st).scopes.fileStatus name = ctx.fileStatusAfter c st name := by
  have hreach : c.reach = 0 := by
    cases c with
    | read | readLeniently | check => rfl
    | _ => cases hc
  refine fileStatus_of_checked howns hreach hlevel ?_ hchecked lenient
  rw [assigned?_of_isCheck hc, hchecked, Option.bind_some]

theorem fileStatus_autovivify (hlevel : 0 < st.scopes.depth) (hreach : c.reach = 0)
    (hassigned : ctx.assigned? c st = some token) (hchecked : ctx.checked? c st = none) (finding : Finding) :
    (ctx.autovivify token finding st).scopes.fileStatus name = ctx.fileStatusAfter c st name := by
  unfold autovivify
  refine fileStatus_of_assigned howns hreach hlevel hassigned hchecked ?_ (fun _ => rfl) (fun _ => rfl)
  split
  · rfl
  · exact ctx.report_scopes _ _ _ st

/-- A declaration is what a command does that makes the variable known and checks none. -/
theorem fileStatus_of_introduced (hreach : c.reach = level) (hlevel : level < st.scopes.depth)
    (hassigned : ctx.assigned? c st = (some token).filter fun token => !st.scopes.declares level token.text)
    (hchecked : ctx.checked? c st = none) :
    (st.declare level token).scopes.fileStatus name = ctx.fileStatusAfter c st name := by
  rw [fileStatus_declare howns hlevel, fileStatusAfter, assignsFile, usesFile, hassigned, hchecked, hreach]
  by_cases h : st.scopes.declares level token.text <;> simp [h, Option.filter]

/-- What a frame knows of its variables besides their bindings does not matter. -/
theorem fileStatus_declare_of_modifyTop (hlevel : 0 < st.scopes.depth) {noted : ScanState} {change : Frame → Frame}
    (hnoted : noted.scopes = st.scopes.modifyTop change) (hsame : ∀ frame, (change frame).bindings = frame.bindings) :
    (noted.declare 0 token).scopes.fileStatus name = (st.declare 0 token).scopes.fileStatus name := by
  have hdepth : noted.scopes.depth = st.scopes.depth := by
    simp [hnoted, ScopeStack.modifyTop, ScopeStack.depth]
  rw [fileStatus_declare (hnoted ▸ howns.modifyTop hsame) (hdepth ▸ hlevel), fileStatus_declare howns hlevel, hdepth,
    hnoted, ScopeStack.declares_modifyTop hsame, ScopeStack.fileStatus_modifyTop hsame]
  simp only [ScopeStack.sharesFile_modifyTop hsame]

/-- An annotation makes a variable known in a relaxed scope. -/
theorem fileStatus_applyDocComment (hlevel : 0 < st.scopes.depth) : (applyDocComment token st).scopes.fileStatus name
    = ctx.fileStatusAfter (.applyDocComment token) st name := by
  unfold applyDocComment
  split
  · next hnone => exact (fileStatusAfter_of_none (by simp [assigned?, introduced?, hnone]) rfl).symm
  · next type hsome =>
      have hdeclare : ∀ (noted : ScanState) (change : Frame → Frame), noted.scopes = st.scopes.modifyTop change →
          (∀ frame, (change frame).bindings = frame.bindings) → (∀ frame, (change frame).mode = frame.mode) →
          (if noted.scopes.modeAt 0 == .relaxed then noted.declare 0 token else noted).scopes.fileStatus name
            = ctx.fileStatusAfter (.applyDocComment token) st name := by
        intro noted change hnoted hbindings hmode
        rw [hnoted, ScopeStack.modeAt_modifyTop hmode]
        split
        · next h =>
            rw [fileStatus_declare_of_modifyTop howns hlevel hnoted hbindings]
            refine fileStatus_of_introduced howns rfl hlevel ?_ rfl
            simp [assigned?, introduced?, hsome, h, Command.reach]
        · next h =>
            rw [hnoted, ScopeStack.fileStatus_modifyTop hbindings]
            exact (fileStatusAfter_of_none (by simp [assigned?, introduced?, h]) rfl).symm
      cases type with
      | none => exact hdeclare st id (by simp [ScopeStack.modifyTop]) (fun _ => rfl) (fun _ => rfl)
      | some type => exact hdeclare _ _ rfl (fun _ => rfl) (fun _ => rfl)

/-- A read in the current scope. -/
theorem fileStatus_read (hlevel : 0 < st.scopes.depth) :
    (ctx.read token st).scopes.fileStatus name = ctx.fileStatusAfter (.read token) st name := by
  unfold read
  split
  · next h =>
      have hchecked : ctx.checked? (.read token) st = none := if_pos h
      exact (fileStatusAfter_of_unchecked rfl hchecked).symm
  · next h =>
      have hchecked : ctx.checked? (.read token) st = some token := if_neg h
      exact fileStatus_of_isCheck howns rfl hlevel hchecked false

/-- **What a command does to a variable of the file scope**: it assigns it, it uses its value, or it leaves it. -/
theorem fileStatus_perform (hreach : c.reach < st.scopes.depth) (hparameter : c.isParameter → 1 < st.scopes.depth) :
    (ctx.perform c st).scopes.fileStatus name = ctx.fileStatusAfter c st name := by
  have hlevel : 0 < st.scopes.depth := Nat.zero_lt_of_lt hreach
  by_cases hframing : c.isFraming
  · rw [ScopeStack.fileStatus, lastVariable?_of_isFraming hframing hreach hparameter]
    cases c with
    | applySwitch | dropFinished | openFunction | openArrow | bindParameter | endAt | discard => rfl
    | _ => cases hframing
  cases c with
  | forgetAnnotations i =>
      dsimp only [perform]
      split <;> rfl
  | annotate declared stop => rfl
  | consume i => rfl
  | schedule trigger effectiveAt => rfl
  | rejectReference token => exact congrArg (ScopeStack.fileStatus · name) (ctx.report_scopes _ _ _ st)
  | applyDocComment token => exact fileStatus_applyDocComment howns hlevel
  | read token => exact fileStatus_read howns hlevel
  | readLeniently token =>
      dsimp only [perform]
      split
      · next h =>
          have hchecked : ctx.checked? (.readLeniently token) st = none := if_pos h
          exact (fileStatusAfter_of_unchecked rfl hchecked).symm
      · next h =>
          have hchecked : ctx.checked? (.readLeniently token) st = some token := if_neg h
          exact fileStatus_of_isCheck howns rfl hlevel hchecked true
  | check token => exact fileStatus_of_isCheck howns rfl hlevel rfl false
  | assign token role =>
      refine fileStatus_of_assigned howns rfl hlevel rfl rfl rfl role.mark_token ?_
      cases role <;> exact fun _ => rfl
  | autovivify token finding => exact fileStatus_autovivify howns hlevel rfl rfl rfl finding
  | coalesce token =>
      dsimp only [perform]
      split
      · next h =>
          have hchecked : ctx.checked? (.coalesce token) st = some token := if_pos h
          exact fileStatus_of_checked howns rfl hlevel rfl hchecked false
      · next h =>
          have hassigned : ctx.assigned? (.coalesce token) st = some token := if_neg h
          have hchecked : ctx.checked? (.coalesce token) st = none := if_neg h
          exact fileStatus_of_assigned howns rfl hlevel hassigned hchecked rfl (fun _ => rfl) (fun _ => rfl)
  | update token finding isAlone =>
      dsimp only [perform]
      split
      · next hknown =>
          split
          · next halone =>
              refine fileStatus_of_assigned howns rfl hlevel ?_ ?_ (ctx.report_scopes _ _ _ st) (fun _ => rfl)
                (fun _ => rfl)
              · simp [assigned?, halone]
              · simp [checked?, halone]
          · next halone =>
              -- a known variable that does not stand alone is read
              refine (fileStatus_read howns hlevel).trans (fileStatusAfter_congr rfl ?_ ?_)
              · rw [assigned?_of_isCheck rfl]
                simp [assigned?, checked?, hknown, halone]
              · simp [checked?, hknown, halone]
      · next hknown =>
          refine fileStatus_autovivify howns hlevel rfl ?_ ?_ finding
          · simp [assigned?, hknown]
          · simp [checked?, hknown]
  | standAlone token =>
      exact fileStatus_of_assigned howns rfl hlevel rfl rfl (ctx.report_scopes _ _ _ st) (fun _ => rfl) (fun _ => rfl)
  | declare token => exact fileStatus_of_introduced howns rfl hlevel rfl rfl
  | test token =>
      dsimp only [perform]
      split
      · next h =>
          show (st.declare 0 token).scopes.fileStatus name = _
          refine fileStatus_of_introduced howns rfl hlevel ?_ rfl
          simp [assigned?, introduced?, h, Command.reach]
      · next h => exact (fileStatusAfter_of_none (by simp [assigned?, introduced?, h]) rfl).symm
  | checkOuter token =>
      refine (fileStatus_check howns hreach false false).trans ?_
      simp [fileStatusAfter, assignsFile, usesFile, assigned?, introduced?, checked?, Command.reach,
        ScopeStack.SharesFile]
  | declareOuter token =>
      show (st.declare 1 token).scopes.fileStatus name = _
      exact fileStatus_of_introduced howns rfl hreach rfl rfl
  | _ => exact absurd rfl hframing

omit howns

/-! ## The variables of the file scope through the moments -/

variable (ctx)

theorem fileOwns_stateAt (k : Nat) : (ctx.stateAt k).scopes.FileOwns := by
  refine ctx.stateAt_induction (P := fun st => st.scopes.FileOwns) (Nat.zero_le k) ?_ ?_
  · rw [stateAt_zero]
    rintro file ⟨⟩
    exact Frame.ownsAll_of_nil rfl
  · intro k c hk ih
    exact ih.of_scopeStep (ctx.perform_scopes c _) (Nat.zero_lt_of_lt (ctx.reach_lt_depth hk))

/-- Every variable of the file scope is the one of its name. -/
theorem lastNamed_stateAt (k : Nat) : LastNamed (ctx.stateAt k).scopes.frames := by
  refine ctx.stateAt_induction (P := fun st => LastNamed st.scopes.frames) (Nat.zero_le k) ?_ ?_
  · rw [stateAt_zero]
    rintro name v ⟨⟩
  · intro k c hk ih
    obtain ⟨hreach, hparameter⟩ := ctx.lt_depth hk
    by_cases hc : c.isPlain ∨ c.isHeader
    · exact ScopeStack.lastNamed_of_steps ih hreach (ctx.perform_steps hc _)
    · intro name v hv
      refine ih name v ?_
      cases c with
      | applySwitch | dropFinished | openFunction | openArrow | endAt | discard =>
          rwa [lastVariable?_of_isFraming rfl hreach hparameter] at hv
      | forgetAnnotations i =>
          dsimp only [perform] at hv
          split at hv <;> exact hv
      | schedule => exact hv
      | _ => simp [Command.isPlain, Command.isHeader] at hc

/-- The command after moment `k` assigns a variable of the file scope. -/
def AssignsAt (k : Nat) (name : String) : Prop :=
  ∃ c, ctx.history[k]? = some c ∧ ctx.assignsFile c (ctx.stateAt k) name

/-- The command after moment `k` uses a variable of the file scope. -/
def UsesAt (k : Nat) (name : String) : Prop :=
  ∃ c, ctx.history[k]? = some c ∧ ctx.usesFile c (ctx.stateAt k) name

instance (k : Nat) (name : String) : Decidable (ctx.AssignsAt k name) :=
  decidable_of_iff ((ctx.history[k]?).any fun c => ctx.assignsFile c (ctx.stateAt k) name) (Option.any_eq_true _ _)

variable {ctx}

theorem AssignsAt.lt_length {k : Nat} (h : ctx.AssignsAt k name) : k < ctx.history.length := by
  obtain ⟨c, hk, _⟩ := h
  exact (List.getElem?_eq_some_iff.mp hk).1

theorem UsesAt.lt_length {k : Nat} (h : ctx.UsesAt k name) : k < ctx.history.length := by
  obtain ⟨c, hk, _⟩ := h
  exact (List.getElem?_eq_some_iff.mp hk).1

end ScanContext

end Unassigned
