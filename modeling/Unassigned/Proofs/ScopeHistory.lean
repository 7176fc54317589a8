import Unassigned.Proofs.Heights
import Unassigned.Scope.Operation

/-!
# `Proofs.ScopeHistory` — a scope stack through any sequence of operations

A **history** is a list of operations, performed one after the other on a new stack, in any order and with any
arguments; the one condition is that a truncation keeps a frame. What an operation does to a stack is said once,
by `perform_step`: it pushes a frame, drops some from the top, lets the frames grow, or sets or applies the
waiting switch.

As in a scan, a frame is told from the others by its height. The counting rests on a credit: every strict frame
on the stack can be made relaxed once, and every strict frame was pushed (`triggers_le`). That a trigger is
returned once at most rests on the slot: it is empty from a return to the next trigger (`pending_eq_none`).
-/

namespace Unassigned

namespace ScopeOperation

/-- The operation leaves a frame on a stack that has one. -/
def keepsFrame : ScopeOperation → Bool
  | .truncate kept => 1 ≤ kept
  | _ => true

/-- The operation pushes a strict frame. -/
def pushesStrict : ScopeOperation → Bool
  | .push .strict _ => true
  | _ => false

end ScopeOperation

/-- A frame at a later moment of a history: as in a scan, and its end is the same. -/
structure Frame.Persists (old new : Frame) : Prop extends old.Evolves new where
  endIndex : new.endIndex = old.endIndex

namespace Frame.Persists

theorem refl (frame : Frame) : frame.Persists frame :=
  ⟨.refl frame, rfl⟩

theorem trans {a b c : Frame} (hab : a.Persists b) (hbc : b.Persists c) : a.Persists c :=
  ⟨hab.toEvolves.trans hbc.toEvolves, hbc.endIndex.trans hab.endIndex⟩

end Frame.Persists

namespace ScopeStack

variable {stack old new : ScopeStack}
variable {op : ScopeOperation} {t : Token}

/-! ## One operation -/

/-- What an operation does to a stack. -/
inductive OperationStep : ScopeOperation → ScopeStack → ScopeStack → Prop where
  | push {old : ScopeStack} (mode : Mode) (endIndex : Int) :
      OperationStep (.push mode endIndex) old (old.push { mode, endIndex })
  | drop {op : ScopeOperation} {old new : ScopeStack} (frames : new.frames <:+ old.frames)
      (pending : new.pending = old.pending)
      (ne_nil : op.keepsFrame → old.frames ≠ [] → new.frames ≠ []) : OperationStep op old new
  | grow {op : ScopeOperation} {old new : ScopeStack} (frames : FramesGrow old.frames new.frames)
      (pending : new.pending = old.pending) : OperationStep op old new
  | schedule {old : ScopeStack} (trigger : Token) (effectiveAt : Int) :
      OperationStep (.schedule trigger effectiveAt) old (old.schedule trigger effectiveAt)
  | apply {old : ScopeStack} (index : Int) : OperationStep (.apply index) old (old.applyPending index).1

theorem OperationStep.same : OperationStep op stack stack :=
  .grow (.refl _) rfl

/-- A truncation to a positive depth keeps the file scope. -/
theorem drop_kept_ne_nil {depth : Int} (hdepth : 1 ≤ depth) (hne : stack.frames ≠ []) :
    stack.frames.drop (stack.depth - stack.kept depth) ≠ [] := by
  have hpos : 0 < stack.depth := List.length_pos_iff.mpr hne
  have hkept : 0 < stack.kept depth := by
    unfold kept
    rw [if_neg (by omega)]
    omega
  rw [ne_eq, List.drop_eq_nil_iff]
  show ¬ stack.depth ≤ stack.depth - stack.kept depth
  omega

/-- **What an operation can do** to a stack. -/
theorem perform_step (op : ScopeOperation) (stack : ScopeStack) :
    OperationStep op stack (stack.perform op).1 := by
  cases op with
  | push mode endIndex => exact .push mode endIndex
  | pop =>
      dsimp only [perform]
      split
      · exact .same
      · exact .same
      · next hnil hone =>
          refine .drop (List.tail_suffix _) rfl fun _ _ => ?_
          show stack.frames.tail ≠ []
          match hframes : stack.frames with
          | [] => exact absurd hframes hnil
          | [frame] => exact absurd hframes (hone frame)
          | _ :: _ :: _ => simp
  | truncate kept =>
      refine .drop (List.drop_suffix _ _) rfl fun hkeeps hne => ?_
      exact drop_kept_ne_nil (by simpa [ScopeOperation.keepsFrame] using hkeeps) hne
  | getOrCreate token level =>
      dsimp only [perform]
      split
      · exact .same
      · exact .grow (stack.modifyFrom_grow (touchVariable_grow token id) _) rfl
  | schedule trigger effectiveAt => exact .schedule trigger effectiveAt
  | apply index =>
      dsimp only [perform]
      split <;> exact .apply index
  | depth => exact .same
  | isDeclared | currentMode | scope | fileScope =>
      dsimp only [perform]
      split <;> exact .same

theorem applyPending_persists (index : Int) :
    List.Forall₂ Frame.Persists old.frames (old.applyPending index).1.frames :=
  applyPending_forall₂ .refl (fun _ => ⟨⟨List.prefix_rfl, fun _ => rfl⟩, rfl⟩) index

/-- An operation opens frames or drops frames or keeps them. -/
theorem OperationStep.frames {op : ScopeOperation} (h : OperationStep op old new) :
    old.frames <:+ new.frames ∨ new.frames <:+ old.frames
      ∨ List.Forall₂ Frame.Persists old.frames new.frames := by
  cases h with
  | push => exact .inl (List.suffix_cons _ _)
  | drop hframes => exact .inr (.inl hframes)
  | grow hframes => exact .inr (.inr (hframes.imp fun _ _ hgrow => ⟨hgrow.evolves, hgrow.endIndex⟩))
  | schedule => exact .inl List.suffix_rfl
  | apply index => exact .inr (.inr (applyPending_persists index))

theorem OperationStep.ne_nil (h : OperationStep op old new) (hkeeps : op.keepsFrame) (hne : old.frames ≠ []) :
    new.frames ≠ [] := by
  have hpos : 0 < old.frames.length := List.length_pos_iff.mpr hne
  cases h with
  | push => exact List.cons_ne_nil _ _
  | drop _ _ hframes => exact hframes hkeeps hne
  | grow hframes => exact List.length_pos_iff.mp (hframes.length_eq ▸ hpos)
  | schedule => exact hne
  | apply index =>
      have hlength := (@applyPending_persists old index).length_eq
      exact List.length_pos_iff.mp (hlength ▸ hpos)

/-! ## Failing operations -/

/-- The file scope cannot be popped. -/
theorem perform_pop_of_depth (h : stack.depth = 1) : stack.perform .pop = (stack, .error .fileScope) := by
  obtain ⟨frame, hframe⟩ := List.length_eq_one_iff.mp h
  simp [perform, hframe]

/-- The levels of a stack with `n` frames are those from `-n` to `n - 1`. -/
theorem place?_eq_none {level : Int} :
    stack.place? level = none ↔ level < -stack.depth ∨ (stack.depth : Int) ≤ level := by
  have hplace : ∀ place : Int, (if 0 ≤ place ∧ place < stack.depth then some place.toNat else none) = none
      ↔ place < 0 ∨ (stack.depth : Int) ≤ place := by
    intro place
    split
    · exact iff_of_false nofun (by omega)
    · exact iff_of_true rfl (by omega)
  unfold place?
  dsimp only
  rw [hplace]
  split <;> omega

theorem perform_getOrCreate_of_out_of_range {level : Int}
    (h : level < -stack.depth ∨ (stack.depth : Int) ≤ level) (token : Token) :
    stack.perform (.getOrCreate token level) = (stack, .error .noSuchFrame) := by
  simp [perform, place?_eq_none.mpr h]

/-! ## Returned triggers -/

/-- The trigger that an operation returns, if it does. -/
def returned? (stack : ScopeStack) (op : ScopeOperation) : Option Token :=
  match (stack.perform op).2 with
  | .ok (.trigger token) => token
  | _ => none

/-- A switch that is applied to a strict frame makes it relaxed and empties the slot. -/
theorem applyPending_eq_some {index : Int} (h : (stack.applyPending index).2 = some t) :
    ∃ e top below, stack.pending = some ⟨t, e⟩ ∧ stack.frames = top :: below ∧ top.mode = .strict
      ∧ (stack.applyPending index).1 = ⟨{ top with mode := .relaxed } :: below, none⟩ := by
  unfold applyPending at h ⊢
  cases hdue : stack.due? index with
  | none => simp [hdue] at h
  | some switch =>
      have hpending := (Option.filter_eq_some_iff.mp hdue).1
      simp only [hdue] at h ⊢
      cases hframes : stack.frames with
      | nil => simp [modeAt, frame?, hframes] at h
      | cons top below =>
          cases hmode : top.mode with
          | relaxed => simp [modeAt, frame?, hframes, hmode] at h
          | strict =>
              have hswitch : switch.trigger = t := by simpa [modeAt, frame?, hframes, hmode] using h
              refine ⟨switch.effectiveAt, top, below, ?_, rfl, hmode, ?_⟩
              · rw [hpending, ← hswitch]
              · simp [modeAt, frame?, hmode, modifyTop]

/-- Only the application of a switch returns a trigger. -/
theorem perform_eq_trigger {trigger : Option Token} (h : (stack.perform op).2 = .ok (.trigger trigger)) :
    ∃ index, op = .apply index ∧ (stack.applyPending index).2 = trigger := by
  cases op with
  | apply index =>
      dsimp only [perform] at h
      split at h
      · cases h
      · cases h
        exact ⟨index, rfl, rfl⟩
  | pop | getOrCreate | isDeclared | currentMode | scope | fileScope =>
      dsimp only [perform] at h
      split at h <;> cases h
  | _ => cases h

theorem perform_apply (index : Int) : (stack.perform (.apply index)).1 = (stack.applyPending index).1 := by
  dsimp only [perform]
  split <;> rfl

/-- An operation that returns a trigger takes it from the slot, and makes the current frame relaxed, which was
    strict. -/
theorem returned?_eq_some (h : stack.returned? op = some t) :
    ∃ e top below, stack.pending = some ⟨t, e⟩ ∧ stack.frames = top :: below ∧ top.mode = .strict
      ∧ (stack.perform op).1 = ⟨{ top with mode := .relaxed } :: below, none⟩ ∧ ∃ index, op = .apply index := by
  unfold returned? at h
  split at h
  · next trigger hresult =>
      obtain ⟨index, rfl, htrigger⟩ := perform_eq_trigger hresult
      obtain ⟨e, top, below, hpending, hframes, hmode, hafter⟩ := applyPending_eq_some (htrigger.trans h)
      refine ⟨e, top, below, hpending, hframes, hmode, ?_, index, rfl⟩
      rw [perform_apply, hafter]
  · cases h

/-! ## Strict frames -/

/-- The number of strict frames. -/
def strictFrames (stack : ScopeStack) : Nat :=
  stack.frames.countP fun frame => frame.mode == .strict

theorem strictFrames_of_grow (h : FramesGrow old.frames new.frames) : new.strictFrames = old.strictFrames := by
  unfold strictFrames
  generalize old.frames = frames, new.frames = frames' at h
  induction h with
  | nil => rfl
  | cons hgrow _ ih => rw [List.countP_cons, List.countP_cons, ih, hgrow.mode]

/-- Only a push makes another strict frame. -/
theorem OperationStep.strictFrames_le (h : OperationStep op old new) :
    new.strictFrames ≤ old.strictFrames + if op.pushesStrict then 1 else 0 := by
  cases h with
  | push mode endIndex =>
      -- the one case with a credit
      show List.countP _ (_ :: old.frames) ≤ _
      rw [List.countP_cons]
      cases mode <;> exact Nat.le_refl _
  | drop hframes => exact Nat.le_add_right_of_le hframes.sublist.countP_le
  | grow hframes => exact Nat.le_add_right_of_le (Nat.le_of_eq (strictFrames_of_grow hframes))
  | schedule => exact Nat.le_add_right _ _
  | apply index =>
      unfold strictFrames
      rcases old.frames_applyPending index with hsame | hhead
      · rw [hsame]
        exact Nat.le_add_right _ _
      · rw [hhead]
        cases old.frames with
        | nil => exact Nat.zero_le _
        | cons top below =>
            rw [List.modifyHead_cons, List.countP_cons_of_neg (by simp)]
            exact Nat.le_add_right_of_le (List.sublist_cons_self top below).countP_le

/-- An operation that returns a trigger leaves one strict frame less. -/
theorem strictFrames_of_returned (h : stack.returned? op = some t) :
    (stack.perform op).1.strictFrames + 1 = stack.strictFrames := by
  obtain ⟨_, top, below, _, hframes, hmode, hafter, _⟩ := returned?_eq_some h
  unfold strictFrames
  rw [hafter, hframes, List.countP_cons_of_neg (by simp), List.countP_cons_of_pos (by simp [hmode])]

/-! ## The slot -/

/-- An operation that schedules no switch leaves the slot as it is, or empties it. -/
theorem OperationStep.pending {op : ScopeOperation} (h : OperationStep op old new)
    (hop : ∀ t e, op ≠ .schedule t e) : new.pending = old.pending ∨ new.pending = none := by
  cases h with
  | push => exact .inl rfl
  | drop _ hpending => exact .inl hpending
  | grow _ hpending => exact .inl hpending
  | schedule t e => exact absurd rfl (hop t e)
  | apply index =>
      unfold applyPending
      split
      · exact .inl rfl
      · refine .inr ?_
        dsimp only
        split <;> rfl

end ScopeStack

/-! ## Histories -/

/-- Operations, to be performed one after the other on a new stack. -/
abbrev ScopeHistory := List ScopeOperation

namespace ScopeHistory

variable (ops : ScopeHistory)

/-- The stack after the first `k` operations. -/
def stackAt (k : Nat) : ScopeStack :=
  (ops.take k).foldl (fun stack op => (stack.perform op).1) {}

/-- The trigger that the operation after the first `k` returns, if it does. -/
def triggerAt? (k : Nat) : Option Token :=
  ops[k]?.bind (ops.stackAt k).returned?

/-- The triggers that the first `k` operations return, in order. -/
def triggers (k : Nat) : List Token :=
  (List.range k).filterMap ops.triggerAt?

/-- The operation after the first `j` returns the trigger that the one after the first `i` scheduled, the last one
    to do so before it. -/
structure Returns (i j : Nat) : Prop where
  lt : i < j
  trigger : ∃ t e, ops[i]? = some (.schedule t e) ∧ ops.triggerAt? j = some t
  last : ∀ k t e, i < k → k < j → ops[k]? ≠ some (.schedule t e)

variable {ops}
variable {k j : Nat} {t : Token}

theorem stackAt_succ {op : ScopeOperation} (h : ops[k]? = some op) :
    ops.stackAt (k + 1) = ((ops.stackAt k).perform op).1 := by
  rw [stackAt, List.take_add_one, h, List.foldl_append]
  rfl

theorem stackAt_succ_of_none (h : ops[k]? = none) : ops.stackAt (k + 1) = ops.stackAt k := by
  rw [stackAt, List.take_add_one, h, Option.toList_none, List.append_nil]
  rfl

theorem stackAt_step (k : Nat) : ops[k]? = none ∧ ops.stackAt (k + 1) = ops.stackAt k
    ∨ ∃ op, ops[k]? = some op ∧ ScopeStack.OperationStep op (ops.stackAt k) (ops.stackAt (k + 1)) := by
  cases hop : ops[k]? with
  | none => exact .inl ⟨rfl, stackAt_succ_of_none hop⟩
  | some op =>
      refine .inr ⟨op, rfl, ?_⟩
      rw [stackAt_succ hop]
      exact ScopeStack.perform_step op _

/-- There is always a frame. -/
theorem frames_ne_nil (hops : ∀ op ∈ ops, op.keepsFrame) (k : Nat) : (ops.stackAt k).frames ≠ [] := by
  induction k with
  | zero => exact List.cons_ne_nil _ _
  | succ k ih =>
      rcases ops.stackAt_step k with ⟨_, heq⟩ | ⟨op, hop, hstep⟩
      · rwa [heq]
      · exact hstep.ne_nil (hops op (List.mem_of_getElem? hop)) ih

/-- **A frame persists as long as it is on the stack.** -/
theorem persists_of_open {h a b : Nat} {old : Frame} (hab : a ≤ b)
    (hopen : ∀ k, a ≤ k → k ≤ b → h < (ops.stackAt k).depth) (hold : (ops.stackAt a).atHeight h = some old) :
    ∃ new, (ops.stackAt b).atHeight h = some new ∧ old.Persists new := by
  refine ScopeStack.atHeight_of_open Frame.Persists.refl (fun _ _ _ => Frame.Persists.trans)
    (fun k h frame hframe hh => ?_) hab hopen hold
  rcases ops.stackAt_step k with ⟨_, heq⟩ | ⟨op, _, hstep⟩
  · rw [heq]
    exact ⟨frame, hframe, .refl frame⟩
  · exact ScopeStack.atHeight_of_frames Frame.Persists.refl hstep.frames hframe hh

/-! ## Counting -/

theorem length_triggers_succ (k : Nat) :
    (ops.triggers (k + 1)).length = (ops.triggers k).length + (ops.triggerAt? k).toList.length := by
  rw [triggers, List.range_succ, List.filterMap_append, List.length_append, List.filterMap_cons,
    List.filterMap_nil]
  cases ops.triggerAt? k <;> rfl

/-- **Each trigger is paid for by a strict frame.** -/
theorem triggers_le (k : Nat) : (ops.triggers k).length + (ops.stackAt k).strictFrames
    ≤ (ops.take k).countP ScopeOperation.pushesStrict := by
  induction k with
  | zero => exact Nat.le_refl _
  | succ k ih =>
      rw [length_triggers_succ, List.take_add_one, List.countP_append]
      cases hop : ops[k]? with
      | none =>
          rw [stackAt_succ_of_none hop, triggerAt?, hop]
          exact ih
      | some op =>
          rw [stackAt_succ hop, triggerAt?, hop, Option.bind_some, Option.toList_some, List.countP_singleton]
          -- a return spends what a push of a strict frame has paid in
          cases hreturned : (ops.stackAt k).returned? op with
          | none =>
              have hle := (ScopeStack.perform_step op (ops.stackAt k)).strictFrames_le
              rw [Option.toList_none, List.length_nil]
              omega
          | some t =>
              have heq := ScopeStack.strictFrames_of_returned hreturned
              rw [Option.toList_some, List.length_singleton]
              omega

/-! ## The slot through a history -/

/-- What is returned was in the slot, and the slot is empty then. -/
theorem pending_of_triggerAt? (h : ops.triggerAt? j = some t) :
    (∃ e, (ops.stackAt j).pending = some ⟨t, e⟩) ∧ (ops.stackAt (j + 1)).pending = none := by
  obtain ⟨op, hop, hreturned⟩ := Option.bind_eq_some_iff.mp h
  obtain ⟨e, _, _, hpending, _, _, hafter, _⟩ := ScopeStack.returned?_eq_some hreturned
  refine ⟨⟨e, hpending⟩, ?_⟩
  rw [stackAt_succ hop, hafter]

/-- As long as no switch is scheduled, the slot is as it was, or empty. -/
theorem pending_step (hno : ∀ t e, ops[k]? ≠ some (.schedule t e)) :
    (ops.stackAt (k + 1)).pending = (ops.stackAt k).pending ∨ (ops.stackAt (k + 1)).pending = none := by
  rcases ops.stackAt_step k with ⟨_, heq⟩ | ⟨op, hop, hstep⟩
  · rw [heq]
    exact .inl rfl
  · exact hstep.pending fun t e heq => hno t e (heq ▸ hop)

/-- **The slot is empty from a return to the next trigger.** -/
theorem pending_eq_none (hj : ops.triggerAt? j = some t) (hjk : j < k)
    (hno : ∀ m t e, j < m → m < k → ops[m]? ≠ some (.schedule t e)) : (ops.stackAt k).pending = none := by
  induction hjk with
  | refl => exact (pending_of_triggerAt? hj).2
  | @step k hjk ih =>
      have hempty := ih fun m t e hjm hmk => hno m t e hjm (Nat.lt_succ_of_lt hmk)
      rcases pending_step fun t e => hno k t e hjk (Nat.lt_succ_self k) with hsame | hnone
      · rw [hsame, hempty]
      · exact hnone

/-- **The slot holds what was scheduled last.** -/
theorem scheduled_of_pending {switch : PendingSwitch} (h : (ops.stackAt k).pending = some switch) :
    ∃ i, i < k ∧ ops[i]? = some (.schedule switch.trigger switch.effectiveAt)
      ∧ ∀ m t e, i < m → m < k → ops[m]? ≠ some (.schedule t e) := by
  induction k with
  | zero => cases h
  | succ k ih =>
      by_cases hschedule : ∃ t e, ops[k]? = some (.schedule t e)
      · obtain ⟨t, e, hop⟩ := hschedule
        rw [stackAt_succ hop] at h
        cases h
        exact ⟨k, Nat.lt_succ_self k, hop, fun m _ _ hkm hmk => absurd hmk (by omega)⟩
      · have hno : ∀ t e, ops[k]? ≠ some (.schedule t e) := fun t e hop => hschedule ⟨t, e, hop⟩
        rcases pending_step hno with hsame | hnone
        · obtain ⟨i, hlt, hop, hlast⟩ := ih (hsame ▸ h)
          refine ⟨i, Nat.lt_succ_of_lt hlt, hop, fun m t e him hmk => ?_⟩
          rcases Nat.lt_succ_iff_lt_or_eq.mp hmk with hmk | rfl
          · exact hlast m t e him hmk
          · exact hno t e
        · -- an empty slot holds nothing
          rw [hnone] at h
          cases h

/-- What is returned was scheduled before. -/
theorem exists_returns (h : ops.triggerAt? j = some t) : ∃ i, ops.Returns i j := by
  obtain ⟨⟨e, hpending⟩, _⟩ := pending_of_triggerAt? h
  obtain ⟨i, hlt, hop, hlast⟩ := scheduled_of_pending hpending
  exact ⟨i, hlt, ⟨t, e, hop, h⟩, hlast⟩

theorem Returns.not_lt {i j' : Nat} (h : ops.Returns i j) (h' : ops.Returns i j') : ¬ j < j' := by
  intro hlt
  obtain ⟨_, _, _, hreturned⟩ := h.trigger
  obtain ⟨_, _, _, hreturned'⟩ := h'.trigger
  obtain ⟨⟨_, hpending⟩, _⟩ := pending_of_triggerAt? hreturned'
  -- no switch is scheduled between the two, so the second finds the slot empty
  have hempty := pending_eq_none hreturned hlt fun m t e hjm hmj' => h'.last m t e (Nat.lt_trans h.lt hjm) hmj'
  rw [hempty] at hpending
  cases hpending

/-- **A trigger that is scheduled is returned once at most.** -/
theorem Returns.unique {i j' : Nat} (h : ops.Returns i j) (h' : ops.Returns i j') : j = j' :=
  Nat.le_antisymm (Nat.not_lt.mp (h'.not_lt h)) (Nat.not_lt.mp (h.not_lt h'))

/-! ## The result -/

/-- The file scope is there at every moment, and relaxed. -/
theorem exists_fileScope (hops : ∀ op ∈ ops, op.keepsFrame) (k : Nat) :
    ∃ file, (ops.stackAt k).atHeight 0 = some file ∧ Frame.Persists { mode := .relaxed } file := by
  refine persists_of_open (Nat.zero_le k) (fun m _ _ => ?_) rfl
  exact List.length_pos_iff.mpr (frames_ne_nil hops m)

/-- **The stack through a history.** At every moment the lowest frame is the file scope, relaxed. A frame that is
    on the stack keeps its names in their order, and once relaxed it stays relaxed. Popping the file scope and
    touching a variable at a level that is not there fail and change nothing, and the application of a switch
    changes at most the mode of the current frame and the slot. Every trigger that is returned was scheduled
    before, none twice, and there are no more of them than strict frames that were pushed. -/
theorem scope_history_invariants (hops : ∀ op ∈ ops, op.keepsFrame) :
    (∀ k, 1 ≤ (ops.stackAt k).depth
      ∧ ∃ file, (ops.stackAt k).atHeight 0 = some file ∧ file.mode = .relaxed ∧ file.endIndex = -1)
    ∧ (∀ h a b old, a ≤ b → (∀ k, a ≤ k → k ≤ b → h < (ops.stackAt k).depth) →
        (ops.stackAt a).atHeight h = some old →
        ∃ new, (ops.stackAt b).atHeight h = some new ∧ old.names <+: new.names
          ∧ (old.mode = .relaxed → new.mode = .relaxed))
    ∧ (∀ k, (ops.stackAt k).depth = 1 →
        (ops.stackAt k).perform .pop = (ops.stackAt k, .error .fileScope))
    ∧ (∀ k token (level : Int), level < -(ops.stackAt k).depth ∨ (ops.stackAt k).depth ≤ level →
        (ops.stackAt k).perform (.getOrCreate token level) = (ops.stackAt k, .error .noSuchFrame))
    ∧ (∀ k index, ((ops.stackAt k).perform (.apply index)).1.frames = (ops.stackAt k).frames
        ∨ ((ops.stackAt k).perform (.apply index)).1.frames
          = (ops.stackAt k).frames.modifyHead fun frame => { frame with mode := .relaxed })
    ∧ (∀ j t, ops.triggerAt? j = some t → ∃ i, ops.Returns i j)
    ∧ (∀ i j j', ops.Returns i j → ops.Returns i j' → j = j')
    ∧ (ops.triggers ops.length).length ≤ ops.countP ScopeOperation.pushesStrict := by
  refine ⟨fun k => ?_, fun h a b old hab hopen hold => ?_, fun k => ScopeStack.perform_pop_of_depth,
    fun k token level hlevel => ScopeStack.perform_getOrCreate_of_out_of_range hlevel token,
    fun k index => ?_, fun j t => exists_returns, fun i j j' => Returns.unique, ?_⟩
  · obtain ⟨file, hfile, hpersists⟩ := exists_fileScope hops k
    exact ⟨ScopeStack.lt_depth_of_atHeight hfile, file, hfile, hpersists.relaxed rfl, hpersists.endIndex⟩
  · obtain ⟨new, hnew, hpersists⟩ := persists_of_open hab hopen hold
    exact ⟨new, hnew, hpersists.names, hpersists.relaxed⟩
  · rw [ScopeStack.perform_apply]
    exact ScopeStack.frames_applyPending _ index
  · have hle := ops.triggers_le ops.length
    rw [List.take_length] at hle
    omega

/-- Two strict frames. The switch of the outer one is applied to the inner one, which is then popped; of the next
    two switches the second replaces the first. -/
def crossedSwitches : ScopeHistory :=
  let trigger (index : Nat) : Token := ⟨.keyword .includeWord, "include", 1, index⟩
  [.push .strict 9, .getOrCreate ⟨.var, "$x", 1, 1⟩ 0, .schedule (trigger 2) 3, .push .strict 7, .apply 2,
    .apply 3, .pop, .schedule (trigger 4) 6, .schedule (trigger 5) 6, .apply 6, .apply 6, .truncate 1, .pop]

theorem crossedSwitches_invariants :
    (∀ op ∈ crossedSwitches, op.keepsFrame)
    ∧ (crossedSwitches.triggers 13).map Token.index = [2, 5]
    ∧ (∀ k, 1 ≤ (crossedSwitches.stackAt k).depth)
    ∧ (crossedSwitches.stackAt 12).perform .pop = (crossedSwitches.stackAt 12, .error .fileScope)
    ∧ (∀ i j j', crossedSwitches.Returns i j → crossedSwitches.Returns i j' → j = j')
    ∧ (crossedSwitches.triggers crossedSwitches.length).length ≤ 2 := by
  have hkeeps : ∀ op ∈ crossedSwitches, op.keepsFrame := by decide
  obtain ⟨hfile, _, hpop, _, _, _, hunique, hcount⟩ := scope_history_invariants hkeeps
  exact ⟨hkeeps, by decide +kernel, fun k => (hfile k).1, hpop 12 (by decide +kernel), hunique, hcount⟩

end ScopeHistory

end Unassigned
