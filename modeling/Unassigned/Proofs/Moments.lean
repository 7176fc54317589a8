import Unassigned.Scan.Run

/-!
# `Proofs.Moments` — the moments of a scan

A scan performs commands one after the other. Its **history** is the list of all of them, in order; if a
step fails, the commands that it performed before the failure are the last. The **moments** of a scan are
the states between commands: `stateAt k` is the state after the first `k` of them.

The moments are divided into **steps** (`StepAt`): every command belongs to the plan of one of them
(`exists_inStep`). `performed_induction` is the way to prove something of every moment: a property of the
state at the boundaries of steps is carried from step to step, and what holds inside a step follows from it. A scan
that is recorded takes the same steps (`trace_records_scan`).
-/

namespace Unassigned

namespace ScanContext

variable (ctx : ScanContext)
variable {k i n m t : Nat} {c : Command} {st final : ScanState} {e : ScanError}

/-! ## Performing lists of commands -/

@[simp] theorem execute_nil (st : ScanState) : ctx.execute [] st = st := rfl

@[simp] theorem execute_cons (c : Command) (cs : List Command) (st : ScanState) :
    ctx.execute (c :: cs) st = ctx.execute cs (ctx.perform c st) := rfl

theorem execute_append (cs ds : List Command) (st : ScanState) :
    ctx.execute (cs ++ ds) st = ctx.execute ds (ctx.execute cs st) := by
  simp [execute, List.foldl_append]

/-- The state after one more command of a list. -/
theorem execute_take_succ {cs : List Command} (h : cs[k]? = some c) (st : ScanState) :
    ctx.execute (cs.take (k + 1)) st = ctx.perform c (ctx.execute (cs.take k) st) := by
  rw [List.take_add_one, h, execute_append]
  rfl

/-! ## One step of a scan -/

theorem commands_plan (i : Nat) (st : ScanState) :
    (ctx.plan i st).commands
      = arrival i ++ (ctx.dispatch (ctx.arrive i st).currentTypes i).commands := by
  rw [plan, Plan.bind_of_ok (Plan.result_emitAll _)]
  rfl

theorem after_eq (i : Nat) (st : ScanState) : ctx.after i st
    = ctx.execute (ctx.dispatch (ctx.arrive i st).currentTypes i).commands (ctx.arrive i st) := by
  rw [after, commands_plan, execute_append]
  rfl

theorem result_plan (i : Nat) (st : ScanState) :
    (ctx.plan i st).result = (ctx.dispatch (ctx.arrive i st).currentTypes i).result := by
  rw [plan, Plan.bind_of_ok (Plan.result_emitAll _)]

theorem scanFrom_of_error (hi : i < ctx.file.size) (he : (ctx.plan i st).result = .error e) :
    ctx.scanFrom i st = .error e := by
  rw [scanFrom, if_pos hi]
  split
  next e' he' =>
    obtain rfl : e = e' := by simpa [he] using he'
    rfl
  next last hlast => rw [he] at hlast; simp at hlast

theorem scanFrom_of_ok {last : Nat} (hi : i < ctx.file.size) (hlast : (ctx.plan i st).result = .ok last) :
    ctx.scanFrom i st = ctx.scanFrom (last + 1) (ctx.after i st) := by
  rw [scanFrom, if_pos hi]
  split
  next e he => rw [hlast] at he; simp at he
  next last' hlast' =>
    obtain rfl : last = last' := by simpa [hlast] using hlast'
    rfl

theorem scanFrom_of_le (st : ScanState) (hi : ctx.file.size ≤ i) : ctx.scanFrom i st = .ok st := by
  rw [scanFrom, if_neg (by omega)]

theorem scan_eq_ok : ctx.scan = .ok final ↔ ∃ st, ctx.scanFrom 0 {} = .ok st ∧ ctx.finish st = .ok final := by
  unfold scan
  cases ctx.scanFrom 0 {} with
  | error e => simp [bind, Except.bind]
  | ok st => simp [bind, Except.bind]

/-! ## History and moments -/

/-- The commands of a scan from a place on, in order. -/
def commandsFrom (i : Nat) (st : ScanState) : List Command :=
  if i < ctx.file.size then
    match _h : (ctx.plan i st).result with
    | .error _ => (ctx.plan i st).commands
    | .ok last => (ctx.plan i st).commands ++ commandsFrom (last + 1) (ctx.after i st)
  else []
termination_by ctx.file.size - i
decreasing_by
  have hle := ctx.le_of_plan _h
  omega

theorem commandsFrom_of_error (hi : i < ctx.file.size) (he : (ctx.plan i st).result = .error e) :
    ctx.commandsFrom i st = (ctx.plan i st).commands := by
  rw [commandsFrom, if_pos hi]
  split
  next => rfl
  next last hlast => rw [he] at hlast; simp at hlast

theorem commandsFrom_of_ok {last : Nat} (hi : i < ctx.file.size) (hlast : (ctx.plan i st).result = .ok last) :
    ctx.commandsFrom i st
      = (ctx.plan i st).commands ++ ctx.commandsFrom (last + 1) (ctx.after i st) := by
  rw [commandsFrom, if_pos hi]
  split
  next e he => rw [hlast] at he; simp at he
  next last' hlast' =>
    obtain rfl : last = last' := by simpa [hlast] using hlast'
    rfl

theorem commandsFrom_of_le (st : ScanState) (hi : ctx.file.size ≤ i) : ctx.commandsFrom i st = [] := by
  rw [commandsFrom, if_neg (by omega)]

/-- The commands of the scan of the file, in order. -/
def history : List Command :=
  ctx.commandsFrom 0 {}

/-- The state after the first `k` commands of the scan. -/
def stateAt (k : Nat) : ScanState :=
  ctx.execute (ctx.history.take k) {}

@[simp] theorem stateAt_zero : ctx.stateAt 0 = {} := by
  simp [stateAt]

theorem stateAt_succ (h : ctx.history[k]? = some c) : ctx.stateAt (k + 1) = ctx.perform c (ctx.stateAt k) :=
  ctx.execute_take_succ h {}

/-- After the last command nothing changes. -/
theorem stateAt_succ_of_none (h : ctx.history[k]? = none) : ctx.stateAt (k + 1) = ctx.stateAt k := by
  have hk : ctx.history.length ≤ k := List.getElem?_eq_none_iff.1 h
  rw [stateAt, stateAt, List.take_of_length_le hk, List.take_of_length_le (by omega)]

/-- **What holds at a moment and is kept by every command** holds from then on. -/
theorem stateAt_induction {P : ScanState → Prop} {a b : Nat} (hab : a ≤ b) (hstart : P (ctx.stateAt a))
    (hstep : ∀ k c, ctx.history[k]? = some c → P (ctx.stateAt k) → P (ctx.perform c (ctx.stateAt k))) :
    P (ctx.stateAt b) := by
  induction hab with
  | refl => exact hstart
  | @step b _ ih =>
      cases hb : ctx.history[b]? with
      | none => rwa [ctx.stateAt_succ_of_none hb]
      | some c =>
          rw [ctx.stateAt_succ hb]
          exact hstep b c hb ih

/-- A scan that comes to its end is its history performed. -/
theorem execute_commandsFrom (h : ctx.scanFrom i st = .ok final) :
    ctx.execute (ctx.commandsFrom i st) st = final := by
  fun_induction scanFrom ctx i st with
  | case1 => simp at h
  | case2 i st hi last hlast ih =>
      rw [ctx.commandsFrom_of_ok hi hlast, execute_append]
      exact ih h
  | case3 i st hi =>
      rw [ctx.commandsFrom_of_le st (by omega)]
      simpa using h

/-- The moments end with the state in which the steps of the scan end. -/
theorem stateAt_length_history (h : ctx.scanFrom 0 {} = .ok final) : ctx.stateAt ctx.history.length = final := by
  rw [stateAt, List.take_length]
  exact ctx.execute_commandsFrom h

/-! ## Steps -/

/-- After `t` steps the scan is at moment `n` and about to arrive at place `i`. -/
inductive StepAt : Nat → Nat → Nat → Prop where
  | start : StepAt 0 0 0
  | next {t n i last : Nat} (h : StepAt t n i) (hi : i < ctx.file.size)
      (hlast : (ctx.plan i (ctx.stateAt n)).result = .ok last) :
      StepAt (t + 1) (n + (ctx.plan i (ctx.stateAt n)).commands.length) (last + 1)

theorem stateAt_add {cs ds : List Command} (h : ctx.history.drop n = cs ++ ds) (hm : m ≤ cs.length) :
    ctx.stateAt (n + m) = ctx.execute (cs.take m) (ctx.stateAt n) := by
  rw [stateAt, List.take_add, execute_append, h, List.take_append_of_le_length hm]
  rfl

variable {ctx}

/-- The rest of the history is what the scan does from the place on. -/
theorem StepAt.drop_history (h : ctx.StepAt t n i) : ctx.history.drop n = ctx.commandsFrom i (ctx.stateAt n) := by
  induction h with
  | start => rw [stateAt_zero]; rfl
  | @next t n i last _ hi hlast ih =>
      rw [ctx.commandsFrom_of_ok hi hlast] at ih
      rw [ctx.stateAt_add ih (Nat.le_refl _), List.take_length, ← List.drop_drop, ih,
        List.drop_left]
      rfl

/-- The moments inside a step. -/
theorem StepAt.stateAt_add {t n i : Nat} (h : ctx.StepAt t n i) (hi : i < ctx.file.size) {m : Nat}
    (hm : m ≤ (ctx.plan i (ctx.stateAt n)).commands.length) :
    ctx.stateAt (n + m)
      = ctx.execute ((ctx.plan i (ctx.stateAt n)).commands.take m) (ctx.stateAt n) := by
  have hdrop := h.drop_history
  cases hr : (ctx.plan i (ctx.stateAt n)).result with
  | error e =>
      rw [ctx.commandsFrom_of_error hi hr] at hdrop
      exact ScanContext.stateAt_add ctx (hdrop.trans (List.append_nil _).symm) hm
  | ok last =>
      rw [ctx.commandsFrom_of_ok hi hr] at hdrop
      exact ScanContext.stateAt_add ctx hdrop hm

theorem StepAt.stateAt_next (h : ctx.StepAt t n i) (hi : i < ctx.file.size) :
    ctx.stateAt (n + (ctx.plan i (ctx.stateAt n)).commands.length) = ctx.after i (ctx.stateAt n) := by
  rw [h.stateAt_add hi (Nat.le_refl _), List.take_length]
  rfl

/-- The moment, the place and the state after `t` steps. -/
def boundary? (ctx : ScanContext) : Nat → Option (Nat × Nat × ScanState)
  | 0 => some (0, 0, {})
  | t + 1 =>
    match ctx.boundary? t with
    | none => none
    | some (n, i, st) =>
      if i < ctx.file.size then
        match (ctx.plan i st).result with
        | .error _ => none
        | .ok last => some (n + (ctx.plan i st).commands.length, last + 1, ctx.after i st)
      else none

theorem StepAt.boundary?_eq (h : ctx.StepAt t n i) : ctx.boundary? t = some (n, i, ctx.stateAt n) := by
  induction h with
  | start => rw [stateAt_zero]; rfl
  | next h hi hlast ih => simp only [boundary?, ih, if_pos hi, hlast, h.stateAt_next hi]

theorem stepAt_of_boundary? (h : ctx.boundary? t = some (n, i, st)) : ctx.StepAt t n i := by
  induction t generalizing n i st with
  | zero =>
      cases h
      exact .start
  | succ t ih =>
      cases hbefore : ctx.boundary? t with
      | none => simp [boundary?, hbefore] at h
      | some before =>
          obtain ⟨m, j, before⟩ := before
          have hstep := ih hbefore
          obtain rfl : ctx.stateAt m = before := by
            have heq := hstep.boundary?_eq.symm.trans hbefore
            simpa using heq
          simp only [boundary?, hbefore] at h
          by_cases hj : j < ctx.file.size
          · rw [if_pos hj] at h
            cases hlast : (ctx.plan j (ctx.stateAt m)).result with
            | error e => simp [hlast] at h
            | ok last =>
                simp only [hlast] at h
                cases h
                exact hstep.next hj hlast
          · simp [hj] at h

instance (t n i : Nat) : Decidable (ctx.StepAt t n i) :=
  decidable_of_iff ((ctx.boundary? t).any fun boundary => boundary.1 = n ∧ boundary.2.1 = i) <| by
    constructor
    · intro h
      obtain ⟨⟨m, j, st⟩, hboundary, hplace⟩ := (Option.any_eq_true _ _).mp h
      obtain ⟨rfl, rfl⟩ : m = n ∧ j = i := by simpa using hplace
      exact stepAt_of_boundary? hboundary
    · intro h
      simp [h.boundary?_eq]

/-- The scan goes on from each of its steps. -/
theorem StepAt.scanFrom_eq (h : ctx.StepAt t n i) : ctx.scanFrom 0 {} = ctx.scanFrom i (ctx.stateAt n) := by
  induction h with
  | start => rw [stateAt_zero]
  | next h hi hlast ih => rw [ih, ctx.scanFrom_of_ok hi hlast, h.stateAt_next hi]

theorem StepAt.exists_error {t n i : Nat} (h : ctx.StepAt t n i) {e : ScanError}
    (he : ctx.scanFrom i (ctx.stateAt n) = .error e) :
    ∃ t' n' i', ctx.StepAt t' n' i' ∧ i' < ctx.file.size ∧ (ctx.plan i' (ctx.stateAt n')).result = .error e := by
  by_cases hi : i < ctx.file.size
  · cases hr : (ctx.plan i (ctx.stateAt n)).result with
    | error e' =>
        rw [ctx.scanFrom_of_error hi hr] at he
        obtain rfl : e' = e := Except.error.inj he
        exact ⟨t, n, i, h, hi, hr⟩
    | ok last =>
        rw [ctx.scanFrom_of_ok hi hr, ← h.stateAt_next hi] at he
        exact (h.next hi hr).exists_error he
  · rw [ctx.scanFrom_of_le _ (by omega)] at he
    cases he
termination_by ctx.file.size - i
decreasing_by
  have := ctx.le_of_plan hr
  omega

/-- **A scan fails exactly if one of its steps does.** -/
theorem scanFrom_error_iff : ctx.scanFrom 0 {} = .error e
    ↔ ∃ t n i, ctx.StepAt t n i ∧ i < ctx.file.size ∧ (ctx.plan i (ctx.stateAt n)).result = .error e := by
  constructor
  · intro he
    exact StepAt.start.exists_error (by rwa [stateAt_zero])
  · rintro ⟨t, n, i, h, hi, he⟩
    rw [h.scanFrom_eq, ctx.scanFrom_of_error hi he]

/-- The command at a moment belongs to a step: it is the `m`-th command of the plan of that step. -/
structure InStep (ctx : ScanContext) (k : Nat) (c : Command) (t n i m : Nat) : Prop where
  step : ctx.StepAt t n i
  lt : i < ctx.file.size
  moment : k = n + m
  command : (ctx.plan i (ctx.stateAt n)).commands[m]? = some c

theorem exists_inStep_from {t n i : Nat} (h : ctx.StepAt t n i) {m : Nat} {c : Command}
    (hm : (ctx.commandsFrom i (ctx.stateAt n))[m]? = some c) :
    ∃ t' n' i' m', ctx.InStep (n + m) c t' n' i' m' := by
  by_cases hi : i < ctx.file.size
  · cases hr : (ctx.plan i (ctx.stateAt n)).result with
    | error e =>
        rw [ctx.commandsFrom_of_error hi hr] at hm
        exact ⟨t, n, i, m, h, hi, rfl, hm⟩
    | ok last =>
        rw [ctx.commandsFrom_of_ok hi hr] at hm
        by_cases hlt : m < (ctx.plan i (ctx.stateAt n)).commands.length
        · rw [List.getElem?_append_left hlt] at hm
          exact ⟨t, n, i, m, h, hi, rfl, hm⟩
        · -- a command of a later step
          rw [List.getElem?_append_right (by omega), ← h.stateAt_next hi] at hm
          have hnext := h.next hi hr
          obtain ⟨t', n', i', m', hin⟩ := exists_inStep_from hnext hm
          refine ⟨t', n', i', m', hin.step, hin.lt, ?_, hin.command⟩
          have := hin.moment
          omega
  · rw [ctx.commandsFrom_of_le _ (by omega)] at hm
    simp at hm
termination_by ctx.file.size - i
decreasing_by
  have := ctx.le_of_plan hr
  omega

theorem exists_inStep (hk : ctx.history[k]? = some c) : ∃ t n i m, ctx.InStep k c t n i m := by
  obtain ⟨t, n, i, m, hin⟩ := exists_inStep_from StepAt.start (by rwa [stateAt_zero])
  rw [Nat.zero_add] at hin
  exact ⟨t, n, i, m, hin⟩

theorem InStep.stateAt {k : Nat} {c : Command} {t n i m : Nat} (h : ctx.InStep k c t n i m) :
    ctx.stateAt k
      = ctx.execute ((ctx.plan i (ctx.stateAt n)).commands.take m) (ctx.stateAt n) := by
  have hm : m < _ := (List.getElem?_eq_some_iff.mp h.command).1
  rw [h.moment]
  exact h.step.stateAt_add h.lt (by omega)

/-! ## The order of steps -/

theorem StepAt.unique {j : Nat} (h : ctx.StepAt t n i) (h' : ctx.StepAt t m j) : n = m ∧ i = j := by
  induction h generalizing m j with
  | start => cases h'; exact ⟨rfl, rfl⟩
  | @next t n i last _ hi hlast ih =>
      cases h' with
      | @next _ n' i' last' h' hi' hlast' =>
          obtain ⟨rfl, rfl⟩ := ih h'
          obtain rfl : last = last' := by simpa [hlast] using hlast'
          exact ⟨rfl, rfl⟩

/-- A later step comes after all commands of an earlier one, and further on in the file. -/
theorem StepAt.later {t' n' i' : Nat} (h : ctx.StepAt t n i) (h' : ctx.StepAt t' n' i') (ht : t < t') :
    n + (ctx.plan i (ctx.stateAt n)).commands.length ≤ n' ∧ i < i' := by
  induction h' with
  | start => omega
  | @next t' n' i' last h' hi' hlast ih =>
      have hle := ctx.le_of_plan hlast
      rcases Nat.lt_or_ge t t' with hlt | hge
      · have := ih hlt
        omega
      · obtain rfl : t = t' := by omega
        obtain ⟨rfl, rfl⟩ := h.unique h'
        omega

/-- Of two moments the earlier one is in the same step or in an earlier one. -/
theorem InStep.order {k' : Nat} {c' : Command} {t' n' i' m' : Nat} (h : ctx.InStep k c t n i m)
    (h' : ctx.InStep k' c' t' n' i' m') (hk : k < k') : (n = n' ∧ i = i') ∨ (k < n' ∧ i < i') := by
  have hm : m < _ := (List.getElem?_eq_some_iff.mp h.command).1
  have hm' : m' < _ := (List.getElem?_eq_some_iff.mp h'.command).1
  have := h.moment
  have := h'.moment
  rcases Nat.lt_trichotomy t t' with hlt | rfl | hgt
  · have := h.step.later h'.step hlt
    exact .inr (by omega)
  · exact .inl (h.step.unique h'.step)
  · have := h'.step.later h.step hgt
    omega

/-! ## Induction over the moments -/

/-- A property of the boundaries between steps, carried from step to step. -/
theorem boundary_induction (Boundary : Nat → ScanState → Prop) (start : Boundary 0 {})
    (step : ∀ i st last, i < ctx.file.size → Boundary i st → (ctx.plan i st).result = .ok last →
      Boundary (last + 1) (ctx.after i st)) (h : ctx.StepAt t n i) : Boundary i (ctx.stateAt n) := by
  induction h with
  | start => rwa [stateAt_zero]
  | next h hi hlast ih =>
      rw [h.stateAt_next hi]
      exact step _ _ _ hi ih hlast

/-- **Induction over the moments.** `Boundary` is carried from step to step; `Holds` follows for every
    command and the state in which it is performed, on arrival at a place and at the token there. -/
theorem performed_induction (Boundary : Nat → ScanState → Prop) (Holds : Command → ScanState → Prop)
    (start : Boundary 0 {})
    (arriving : ∀ i st, i < ctx.file.size → Boundary i st → ∀ k c, (arrival i)[k]? = some c →
      Holds c (ctx.execute ((arrival i).take k) st))
    (acting : ∀ i st, i < ctx.file.size → Boundary i st → ∀ k c,
      (ctx.dispatch (ctx.arrive i st).currentTypes i).commands[k]? = some c →
        Holds c (ctx.execute
          ((ctx.dispatch (ctx.arrive i st).currentTypes i).commands.take k) (ctx.arrive i st)))
    (step : ∀ i st last, i < ctx.file.size → Boundary i st → (ctx.plan i st).result = .ok last →
      Boundary (last + 1) (ctx.after i st)) (hk : ctx.history[k]? = some c) : Holds c (ctx.stateAt k) := by
  obtain ⟨t, n, i, m, hin⟩ := exists_inStep hk
  have hst := boundary_induction Boundary start step hin.step
  have hm := hin.command
  rw [hin.stateAt]
  rw [ctx.commands_plan] at hm ⊢
  by_cases hlt : m < (arrival i).length
  · rw [List.getElem?_append_left hlt] at hm
    rw [List.take_append_of_le_length (by omega)]
    exact arriving i _ hin.lt hst m c hm
  · have hle : (arrival i).length ≤ m := by omega
    rw [List.getElem?_append_right hle] at hm
    rw [List.take_append, List.take_of_length_le hle, execute_append]
    exact acting i _ hin.lt hst _ c hm

/-! ## Recorded scans -/

theorem stepsFrom_of_ok {last : Nat} (hi : i < ctx.file.size) (hlast : (ctx.plan i st).result = .ok last) :
    ctx.stepsFrom i st = (⟨i, last, st.changeSince (ctx.after i st)⟩ :: (ctx.stepsFrom (last + 1) (ctx.after i st)).1,
      (ctx.stepsFrom (last + 1) (ctx.after i st)).2) := by
  rw [stepsFrom, if_pos hi]
  split
  next e he => cases hlast.symm.trans he
  next last' hlast' =>
    cases hlast.symm.trans hlast'
    rfl

theorem stepsFrom_result (i : Nat) (st : ScanState) : (ctx.stepsFrom i st).2 = ctx.scanFrom i st := by
  fun_induction ctx.stepsFrom i st with
  | case1 i st hi e he => rw [ctx.scanFrom_of_error hi he]
  | case2 i st hi last hlast after steps result hrest ih => rw [ctx.scanFrom_of_ok hi hlast, ← ih, hrest]
  | case3 i st hi => rw [ctx.scanFrom_of_le st (Nat.not_lt.mp hi)]

theorem StepAt.drop_steps (h : ctx.StepAt t n i) : ctx.trace.steps.drop t = (ctx.stepsFrom i (ctx.stateAt n)).1 := by
  induction h with
  | start => rw [stateAt_zero]; rfl
  | next h hi hlast ih =>
      rw [stepsFrom_of_ok hi hlast] at ih
      rw [← List.drop_drop, ih, h.stateAt_next hi]
      rfl

/-- **A recorded scan is the scan**: it ends as the scan does, and has a record of each step that is done. -/
theorem trace_records_scan : ctx.trace.outcome.map Prod.fst = ctx.scan
    ∧ ∀ t n i last, ctx.StepAt t n i → i < ctx.file.size → (ctx.plan i (ctx.stateAt n)).result = .ok last →
      ctx.trace.steps[t]? = some ⟨i, last, (ctx.stateAt n).changeSince (ctx.after i (ctx.stateAt n))⟩ := by
  constructor
  · unfold trace scan
    rw [← stepsFrom_result]
    obtain ⟨steps, result⟩ := ctx.stepsFrom 0 {}
    cases result with
    | error e => rfl
    | ok st =>
        show Except.map Prod.fst (ctx.finish st >>= fun last => _) = ctx.finish st
        cases ctx.finish st <;> rfl
  · intro t n i last h hi hlast
    rw [← Nat.add_zero t, ← List.getElem?_drop, h.drop_steps, stepsFrom_of_ok hi hlast]
    rfl

end ScanContext

end Unassigned
