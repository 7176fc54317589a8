import Unassigned.Lint.Linter
import Unassigned.Proofs.ErrorToken

/-!
# `Proofs.Discipline` — a scan goes forward, and its scopes end in order

A step that succeeds ends at a token of the file, at its own or behind it, so a scan takes no more steps than
there are tokens. It leaves the scopes as it found them on arrival, or its first command opens **one** scope,
which ends behind the step and with the file at the latest (`StepEnds.ends_cases`).

Between two steps this gives the discipline of the stack: at the bottom lies the scope of the file, which
never ends, and every other scope ends behind the token at which it was opened (`StepAt.scopes_end`). Who
opened a scope is told by the moments: it was opened by the last command that opened a scope at its height,
and has stayed open since (`OpenedAt`).
-/

namespace Unassigned

/-! ## Opening a scope -/

/-- A command that puts a scope on the stack. -/
def Command.opens : Command → Bool
  | .openFunction | .openArrow _ => true
  | _ => false

theorem Command.keepsDepth_endAt (e : Nat) : (Command.endAt e).keepsDepth := by
  intro old new hstep
  cases hstep with
  | grow hframes => exact hframes.length_eq.symm
  | endAt => simp [ScopeStack.depth, ScopeStack.modifyTop]

/-- The header of a function, and the end of its scope once its body is found. -/
theorem Command.keepsDepth_of_body {cs : List Command} (h : ∀ c ∈ cs, c.isHeader) {e : Nat} :
    ∀ d ∈ cs ++ [Command.endAt e], d.keepsDepth := by
  intro d hd
  rcases List.mem_append.mp hd with hd | hd
  · exact keepsDepth_of_isHeader (h d hd)
  · obtain rfl : d = .endAt e := by simpa using hd
    exact keepsDepth_endAt e

namespace ScopeStack

theorem length_ends (stack : ScopeStack) : stack.ends.length = stack.depth := by
  simp [ends, depth]

/-- The scope at height `h` ends where the `h`-th end from below says. -/
theorem endIndex_atHeight {stack : ScopeStack} {h : Nat} {frame : Frame}
    (hframe : stack.atHeight h = some frame) : stack.ends.reverse[h]? = some frame.endIndex := by
  rw [ends, ← List.map_reverse, List.getElem?_map, show stack.frames.reverse[h]? = some frame from hframe]
  rfl

end ScopeStack

/-- Seen from below, a list goes on as any of its suffixes does. -/
theorem getElem?_reverse_of_suffix {as bs : List Int} (hsuffix : as <:+ bs) {h : Nat}
    (hh : h < as.length) : as.reverse[h]? = bs.reverse[h]? := by
  obtain ⟨front, rfl⟩ := hsuffix
  rw [List.reverse_append, List.getElem?_append_left (by simpa using hh)]

/-- The commands `cs` of a step that ends at `last` open one scope with their first command; it ends
    behind the step and within the file, at `e`. -/
structure OpensScope (ctx : ScanContext) (st : ScanState) (cs : List Command) (last e : Nat) : Prop where
  first : ∃ c rest, cs = c :: rest ∧ c.opens
    ∧ (ctx.perform c st).scopes.depth = st.scopes.depth + 1 ∧ ∀ d ∈ rest, d.keepsDepth
  ends : (ctx.execute cs st).scopes.ends = (e : Int) :: st.scopes.ends
  lt : last < e
  le : e ≤ ctx.file.size

/-- **What a step that succeeds does to the scopes:** it keeps them, or opens one. -/
theorem StepEnds.ends_cases {ctx : ScanContext} {i last : Nat} {cs : List Command}
    (h : StepEnds ctx.file.toTokenStream i cs last) (hf : ctx.file.WellNested) {st : ScanState}
    (hpos : 0 < st.scopes.depth) :
    (ctx.execute cs st).scopes.ends = st.scopes.ends ∨ ∃ e, OpensScope ctx st cs last e := by
  cases h with
  | stay h | caught h | statement h => exact .inl (ctx.ends_execute (fun c hc => .inl (h c hc)) st)
  | noBody h => exact .inl (ctx.ends_noBody h st)
  | @body cs _ h hlast =>
      obtain ⟨close, hclose⟩ := hf.closes_of_isChar hlast rfl
      have hlt := (TokenStream.closer?_eq_some.mp hclose).2
      have hsize := hf.closer_lt hclose
      rw [TokenStream.skipGroup_of_closer hclose]
      have hkeeps := Command.keepsDepth_of_body h (e := close)
      exact .inr ⟨close, ⟨.openFunction, cs ++ [.endAt close], rfl, rfl, rfl, hkeeps⟩, ctx.ends_body h _ st,
        hlt, Nat.le_of_lt hsize⟩
  | @arrow cs _ h hlast =>
      have hsize : last < ctx.file.size := TokenStream.lt_size_of_kind (by simp [hlast])
      have hends : ctx.file.EndsScope (last + 1) (ctx.file.expressionEnd last) :=
        .inl ⟨last, by omega, rfl⟩
      have hdepth := ctx.depth_openArrow (ctx.file.expressionEnd last) hpos
      refine .inr ⟨ctx.file.expressionEnd last, ⟨.openArrow _, cs, rfl, rfl, hdepth, ?_⟩, ?_,
        TokenStream.lt_searchEnd hsize, hends.le_size hf⟩
      · exact fun d hd => Command.keepsDepth_of_isHeader (h d hd)
      · rw [ScanContext.execute_cons, ctx.ends_execute fun c hc => .inr (h c hc)]
        rcases ctx.ends_openArrow (ctx.file.expressionEnd last) st with hopen | hnone
        · exact hopen
        · -- there is a scope to be inside of
          have hlength := congrArg List.length hnone
          rw [ScopeStack.length_ends, hdepth] at hlength
          simp at hlength

/-! ## The depth inside a step -/

namespace ScanContext

variable (ctx : ScanContext)
variable {st : ScanState} {t n i b : Nat}

theorem depth_applyPending (scopes : ScopeStack) (i : Nat) :
    (scopes.applyPending i).1.depth = scopes.depth :=
  (ScopeStack.applyPending_evolves i).length_eq.symm

theorem ends_arrive_suffix (i : Nat) (st : ScanState) :
    (ctx.arrive i st).scopes.ends <:+ st.scopes.ends := by
  rw [arrive_scopes, ← ScopeStack.ends_applyPending st.scopes i]
  exact (dropFinishedFrames_suffix i _).map Frame.endIndex

theorem depth_arrive_le (i : Nat) (st : ScanState) : (ctx.arrive i st).scopes.depth ≤ st.scopes.depth := by
  rw [← ScopeStack.length_ends, ← ScopeStack.length_ends]
  exact (ctx.ends_arrive_suffix i st).length_le

/-- On arrival scopes are only dropped. -/
theorem depth_arrive_le_arriving (i k : Nat) (st : ScanState) :
    (ctx.arrive i st).scopes.depth ≤ (ctx.execute ((arrival i).take k) st).scopes.depth := by
  have hswitch : (ctx.perform (.applySwitch i) st).scopes.depth = st.scopes.depth := by
    show (ctx.applySwitch i st).scopes.depth = st.scopes.depth
    rw [ctx.applySwitch_scopes, depth_applyPending]
  have hdrop : (ctx.arrive i st).scopes
      = (ctx.perform (.dropFinished i) (ctx.perform (.applySwitch i) st)).scopes := by
    rw [arrive_scopes, ← ctx.applySwitch_scopes]
    rfl
  match k with
  | 0 => exact ctx.depth_arrive_le i st
  | 1 =>
      show _ ≤ (ctx.perform (.applySwitch i) st).scopes.depth
      rw [hswitch]
      exact ctx.depth_arrive_le i st
  | 2 =>
      rw [hdrop]
      exact Nat.le_refl _
  | k + 3 =>
      rw [List.take_of_length_le (by simp [arrival])]
      exact Nat.le_refl _

theorem depth_take {cs : List Command} (h : ∀ c ∈ cs, c.keepsDepth) {k : Nat} :
    (ctx.execute (cs.take k) st).scopes.depth = st.scopes.depth :=
  ctx.depth_execute (fun c hc => h c (List.mem_of_mem_take hc)) st

/-- A step drops no scope that was there on arrival. -/
theorem le_depth_of_shape {cs : List Command} (hshape : StepShape cs) (hpos : 0 < st.scopes.depth) (k : Nat) :
    st.scopes.depth ≤ (ctx.execute (cs.take k) st).scopes.depth := by
  cases hshape with
  | stay h =>
      exact Nat.le_of_eq (ctx.depth_take fun c hc => Command.keepsDepth_of_isLocal (h c hc)).symm
  | arrow e h =>
      cases k with
      | zero => exact Nat.le_refl _
      | succ k =>
          rw [List.take_succ_cons, execute_cons,
            ctx.depth_take (fun c hc => Command.keepsDepth_of_isHeader (h c hc)),
            ctx.depth_openArrow e hpos]
          omega
  | @function cs h =>
      have hopen : (ctx.perform .openFunction st).scopes.depth = st.scopes.depth + 1 := rfl
      cases k with
      | zero => exact Nat.le_refl _
      | succ k =>
          rw [List.take_succ_cons, execute_cons]
          rcases Nat.lt_or_ge k cs.length with hlt | hge
          · rw [ctx.depth_execute (h.keepsDepth_take hlt), hopen]
            omega
          · rw [List.take_of_length_le hge]
            cases h with
            | header h =>
                rw [ctx.depth_execute fun c hc => Command.keepsDepth_of_isHeader (h c hc), hopen]
                omega
            | body cs e h =>
                rw [ctx.depth_execute (Command.keepsDepth_of_body h), hopen]
                omega
            | noBody cs h =>
                -- the scope of the function is the one that is discarded
                have hends := ctx.ends_noBody h st
                rw [execute_cons] at hends
                have hlength := congrArg List.length hends
                rw [ScopeStack.length_ends, ScopeStack.length_ends] at hlength
                exact Nat.le_of_eq hlength.symm

variable {ctx}

/-- Inside a step there are at least as many scopes as on arrival. -/
theorem StepAt.le_depth (h : ctx.StepAt t n i) (hi : i < ctx.file.size) (hpos : 0 < (ctx.stateAt n).scopes.depth)
    {m : Nat} (hm : m ≤ (ctx.plan i (ctx.stateAt n)).commands.length) :
    (ctx.arrive i (ctx.stateAt n)).scopes.depth ≤ (ctx.stateAt (n + m)).scopes.depth := by
  rw [h.stateAt_add hi hm, ctx.commands_plan]
  rcases Nat.le_total m (arrival i).length with hle | hge
  · rw [List.take_append_of_le_length hle]
    exact ctx.depth_arrive_le_arriving i m _
  · rw [List.take_append, List.take_of_length_le hge, execute_append]
    exact ctx.le_depth_of_shape (ctx.dispatch_shape _ i) (ctx.depth_arrive i hpos) _

theorem StaysOpen.trans {h a c : Nat} (hab : ctx.StaysOpen h a b) (hbc : ctx.StaysOpen h b c) :
    ctx.StaysOpen h a c := by
  intro k hak hkc
  rcases Nat.le_total k b with hkb | hbk
  · exact hab k hak hkb
  · exact hbc k hbk hkc

/-- A scope that is there after the arrival stays open to the end of the step. -/
theorem StepAt.staysOpen (h : ctx.StepAt t n i) (hi : i < ctx.file.size) (hpos : 0 < (ctx.stateAt n).scopes.depth)
    {height : Nat} (hheight : height < (ctx.arrive i (ctx.stateAt n)).scopes.depth) :
    ctx.StaysOpen height n (n + (ctx.plan i (ctx.stateAt n)).commands.length) := by
  intro k hnk hk
  have hle := h.le_depth hi hpos (m := k - n) (by omega)
  rw [show n + (k - n) = k by omega] at hle
  omega

theorem StepAt.depth_pos (h : ctx.StepAt t n i) : 0 < (ctx.stateAt n).scopes.depth :=
  boundary_induction (fun _ st => 0 < st.scopes.depth) (by decide)
    (fun i _ _ _ hst _ => ctx.depth_after i hst) h

/-- The scope of the file is there throughout. -/
theorem StepAt.staysOpen_file (h : ctx.StepAt t n i) : ctx.StaysOpen 0 0 n := by
  induction h with
  | start =>
      intro k _ hk
      obtain rfl : k = 0 := by omega
      exact StepAt.start.depth_pos
  | @next t n i last h hi _ ih =>
      exact ih.trans (h.staysOpen hi h.depth_pos (ctx.depth_arrive i h.depth_pos))

/-! ## Where the scopes end -/

/-- The scope at height `h` at moment `n` was opened by the step at `i`, and has stayed open since. -/
def OpenedAt (ctx : ScanContext) (h i n : Nat) : Prop :=
  ∃ k c t m j, ctx.InStep k c t m i j ∧ c.opens ∧ (ctx.stateAt k).scopes.depth = h ∧ k < n
    ∧ ctx.StaysOpen h (k + 1) n

theorem OpenedAt.extend {h n' : Nat} (hopened : ctx.OpenedAt h i n) (hle : n ≤ n') (hopen : ctx.StaysOpen h n n') :
    ctx.OpenedAt h i n' := by
  obtain ⟨k, c, t, m, j, hin, hc, hdepth, hlt, hstays⟩ := hopened
  exact ⟨k, c, t, m, j, hin, hc, hdepth, by omega, hstays.trans hopen⟩

/-- A scope was opened before the place at which the scan is. -/
theorem OpenedAt.lt {height j : Nat} (hopened : ctx.OpenedAt height j n) (h : ctx.StepAt t n i) : j < i := by
  obtain ⟨k, c, t', m, q, hin, _, _, hkn, _⟩ := hopened
  have hmoment := hin.moment
  rcases Nat.lt_trichotomy t' t with hlt | rfl | hgt
  · exact (hin.step.later h hlt).2
  · have hsame := (hin.step.unique h).1
    omega
  · have hlater := (h.later hin.step hgt).1
    omega

/-- A step whose first command opens a scope opens it at its own token. -/
theorem StepAt.openedAt (h : ctx.StepAt t n i) (hi : i < ctx.file.size) {c : Command} {rest : List Command}
    (hcs : (ctx.dispatch (ctx.arrive i (ctx.stateAt n)).currentTypes i).commands = c :: rest) (hc : c.opens)
    (hdepth : (ctx.perform c (ctx.arrive i (ctx.stateAt n))).scopes.depth
      = (ctx.arrive i (ctx.stateAt n)).scopes.depth + 1) (hkeeps : ∀ d ∈ rest, d.keepsDepth) :
    ctx.OpenedAt (ctx.arrive i (ctx.stateAt n)).scopes.depth i
      (n + (ctx.plan i (ctx.stateAt n)).commands.length) := by
  have hcommands : (ctx.plan i (ctx.stateAt n)).commands = arrival i ++ c :: rest := by
    rw [ctx.commands_plan, hcs]
  have hlength : (ctx.plan i (ctx.stateAt n)).commands.length = 3 + (rest.length + 1) := by
    rw [hcommands, List.length_append]
    rfl
  have harrived : ctx.stateAt (n + 3) = ctx.arrive i (ctx.stateAt n) := by
    rw [h.stateAt_add hi (by omega), hcommands]
    rfl
  refine ⟨n + 3, c, t, n, 3, ⟨h, hi, rfl, ?_⟩, hc, ?_, by omega, ?_⟩
  · rw [hcommands]
    rfl
  · rw [harrived]
  · intro k hlo hhi
    -- the `m`-th command behind the one that opens the scope
    obtain ⟨m, rfl⟩ : ∃ m, k = n + (3 + (m + 1)) := ⟨k - n - 4, by omega⟩
    have hstate : ctx.stateAt (n + (3 + (m + 1)))
        = ctx.execute (rest.take m) (ctx.perform c (ctx.arrive i (ctx.stateAt n))) := by
      rw [h.stateAt_add hi (by omega), hcommands, Nat.add_comm 3]
      rfl
    rw [hstate, ctx.depth_take hkeeps, hdepth]
    omega

/-- **Where the scopes of a stack end**, as the scan has it at moment `n`: that of the file never, each other one
    behind the token that opened it and with the file at the latest. -/
structure EndsInOrder (ctx : ScanContext) (n : Nat) (stack : ScopeStack) : Prop where
  file : stack.ends.reverse[0]? = some (-1)
  opened : ∀ height e, 0 < height → stack.ends.reverse[height]? = some e →
    ∃ i, ctx.OpenedAt height i n ∧ (i : Int) < e ∧ e ≤ ctx.file.size

/-- One more scope, on top of the others. -/
theorem EndsInOrder.push {stack new : ScopeStack} {e : Int} (h : ctx.EndsInOrder n stack) (hpos : 0 < stack.depth)
    (hnew : new.ends = e :: stack.ends) (hopened : ctx.OpenedAt stack.depth i n) (hlt : (i : Int) < e)
    (hle : e ≤ ctx.file.size) : ctx.EndsInOrder n new := by
  have hlength : stack.ends.reverse.length = stack.depth := by
    rw [List.length_reverse, ScopeStack.length_ends]
  constructor
  case file =>
    rw [hnew, List.reverse_cons, List.getElem?_append_left (by omega)]
    exact h.file
  case opened =>
    intro height e' hheight he
    rw [hnew, List.reverse_cons] at he
    rcases Nat.lt_trichotomy height stack.depth with hbelow | rfl | habove
    · rw [List.getElem?_append_left (by omega)] at he
      exact h.opened height e' hheight he
    · rw [List.getElem?_append_right (by omega), hlength, Nat.sub_self] at he
      obtain rfl : e = e' := by simpa using he
      exact ⟨i, hopened, hlt, hle⟩
    · rw [List.getElem?_append_right (by omega), hlength] at he
      have hshort := (List.getElem?_eq_some_iff.mp he).1
      rw [List.length_singleton] at hshort
      omega

/-- The scopes that are left on arrival end where they did before, and they stay open through the step. -/
theorem StepAt.endsInOrder_arrive (h : ctx.StepAt t n i) (hi : i < ctx.file.size)
    (hends : ctx.EndsInOrder n (ctx.stateAt n).scopes) :
    ctx.EndsInOrder (n + (ctx.plan i (ctx.stateAt n)).commands.length) (ctx.arrive i (ctx.stateAt n)).scopes := by
  have hpos := h.depth_pos
  have hkept : ∀ {height}, height < (ctx.arrive i (ctx.stateAt n)).scopes.depth →
      (ctx.arrive i (ctx.stateAt n)).scopes.ends.reverse[height]? = (ctx.stateAt n).scopes.ends.reverse[height]? := by
    intro height hheight
    exact getElem?_reverse_of_suffix (ctx.ends_arrive_suffix i (ctx.stateAt n)) (by rwa [ScopeStack.length_ends])
  refine ⟨(hkept (ctx.depth_arrive i hpos)).trans hends.file, ?_⟩
  intro height e hheight he
  have hlt := (List.getElem?_eq_some_iff.mp he).1
  rw [List.length_reverse, ScopeStack.length_ends] at hlt
  rw [hkept hlt] at he
  obtain ⟨j, hopened, hje, hsize⟩ := hends.opened height e hheight he
  exact ⟨j, hopened.extend (by omega) (h.staysOpen hi hpos hlt), hje, hsize⟩

/-- **Between two steps the scopes end in order.** -/
theorem StepAt.scopes_end (hf : ctx.file.WellNested) (h : ctx.StepAt t n b) :
    ctx.EndsInOrder n (ctx.stateAt n).scopes := by
  induction h with
  | start =>
      rw [stateAt_zero]
      refine ⟨rfl, fun height e hheight he => ?_⟩
      have hlt := (List.getElem?_eq_some_iff.mp he).1
      rw [List.length_reverse] at hlt
      exact absurd hlt (by simp [ScopeStack.ends]; omega)
  | @next t n i last h hi hlast ih =>
      have harrived := ctx.depth_arrive i h.depth_pos
      have hends := h.endsInOrder_arrive hi ih
      rw [h.stateAt_next hi, ctx.after_eq]
      rw [ctx.result_plan] at hlast
      have hle := ctx.le_of_dispatch hlast
      rcases (ctx.dispatch_ends hf hlast).ends_cases hf harrived with hsame | ⟨e, hopens⟩
      · constructor
        · rw [hsame]
          exact hends.file
        · rw [hsame]
          exact hends.opened
      · have hlt := hopens.lt
        have hsize := hopens.le
        obtain ⟨c, rest, hcs, hc, hdepth, hkeeps⟩ := hopens.first
        exact hends.push harrived hopens.ends (h.openedAt hi hcs hc hdepth hkeeps) (by omega) (by omega)

/-! ## Progress -/

/-- A step that succeeds ends at a token of the file. -/
theorem lt_size_of_plan (hf : ctx.file.WellNested) {last : Nat} (hi : i < ctx.file.size)
    (hlast : (ctx.plan i st).result = .ok last) : last < ctx.file.size := by
  rw [ctx.result_plan] at hlast
  exact (ctx.dispatch_ends hf hlast).lt_size hf hi

/-- No more steps than tokens. -/
theorem StepAt.le_place (hf : ctx.file.WellNested) (h : ctx.StepAt t n b) : t ≤ b ∧ b ≤ ctx.file.size := by
  induction h with
  | start => exact ⟨Nat.le_refl _, Nat.zero_le _⟩
  | next _ hi hlast ih =>
      have hle := ctx.le_of_plan hlast
      have hlt := lt_size_of_plan hf hi hlast
      omega

/-- After the scopes that are over were dropped, the innermost one goes on behind the place or is that of
    the file. -/
theorem open_after_arrive (i : Nat) (hpos : 0 < st.scopes.depth) :
    (ctx.arrive i st).scopes.depth = 1
      ∨ ∃ frame, (ctx.arrive i st).scopes.frame? 0 = some frame ∧ (i : Int) < frame.endIndex := by
  have hopen := ctx.openAt_arrive i st
  have harrived := ctx.depth_arrive i hpos
  unfold ScopeStack.ends at hopen
  unfold ScopeStack.depth ScopeStack.frame? at *
  match hframes : (ctx.arrive i st).scopes.frames with
  | [] => simp [hframes] at harrived
  | [_] => exact .inl rfl
  | frame :: next :: rest =>
      rw [hframes] at hopen
      have hle : ((i + 1 : Nat) : Int) ≤ frame.endIndex := hopen
      exact .inr ⟨frame, rfl, by omega⟩

/-- A scan of a file with well-nested brackets never ends with scopes left over. -/
theorem scan_ne_openScopes (hf : ctx.file.WellNested) (depth : Nat) (name : String) :
    ctx.scan ≠ .error (.analysis (.openScopes depth name)) := by
  intro hscan
  obtain ⟨k, hk⟩ := ctx.error_token hf (e := .openScopes depth name) (by rw [defects, hscan]; rfl)
  simp [AnalysisError.token?] at hk

end ScanContext

/-- **A scan makes progress, and its scopes are in order.** For every source that can be parsed and all
    settings of a linter. -/
theorem Linter.scan_disciplined (linter : Linter) {name source : String} {file : SourceFile}
    (hfile : SourceFile.ofSource name source = .ok file) :
    let ctx := linter.context file
    -- a step that succeeds ends at its token or behind it, within the file
    (∀ i st last, i < file.size → (ctx.plan i st).result = .ok last → i ≤ last ∧ last < file.size)
    -- between steps the scope of the file lies at the bottom, where it was from the start
    ∧ (∀ t n b, ctx.StepAt t n b → ctx.StaysOpen 0 0 n
        ∧ ∃ bottom, ctx.frameAt n 0 = some bottom ∧ bottom.mode = .relaxed ∧ bottom.endIndex = -1)
    -- and every other scope ends behind the token that opened it, with the file at the latest
    ∧ (∀ t n b h frame, ctx.StepAt t n b → 0 < h → ctx.frameAt n h = some frame →
        ∃ i, ctx.OpenedAt h i n ∧ (i : Int) < frame.endIndex ∧ frame.endIndex ≤ file.size)
    -- once the scopes are dropped that are over at a token, the current one goes on behind the token
    ∧ (∀ t n i, ctx.StepAt t n i → (ctx.arrive i (ctx.stateAt n)).scopes.depth = 1
        ∨ ∃ frame, (ctx.arrive i (ctx.stateAt n)).scopes.frame? 0 = some frame
          ∧ (i : Int) < frame.endIndex)
    -- so there are no more steps than tokens
    ∧ (∀ t n b, ctx.StepAt t n b → t ≤ file.size)
    -- and at the end only the scope of the file is left
    ∧ (∀ st, ctx.scanFrom 0 {} = .ok st → (st.scopes.dropFinished file.size).depth = 1)
    ∧ ∀ depth name, ctx.scan ≠ .error (.analysis (.openScopes depth name)) := by
  intro ctx
  have hf : ctx.file.WellNested := SourceFile.wellNested_of_ofSource hfile
  refine ⟨fun i st last hi hlast => ⟨ctx.le_of_plan hlast, ScanContext.lt_size_of_plan hf hi hlast⟩,
    fun t n b hstep => ⟨hstep.staysOpen_file, ?_⟩, fun t n b h frame hstep hh hframe => ?_,
    fun t n i hstep => ScanContext.open_after_arrive i hstep.depth_pos,
    fun t n b hstep => ?_, fun st hst => ctx.depth_at_end hf hst, ScanContext.scan_ne_openScopes hf⟩
  · have hstart : ctx.frameAt 0 0 = some { mode := .relaxed } := by
      rw [ScanContext.frameAt, ScanContext.stateAt_zero]
      rfl
    obtain ⟨bottom, hbottom, hevolves⟩ :=
      ctx.evolves_of_staysOpen (Nat.zero_le n) hstep.staysOpen_file hstart
    have hend := ScopeStack.endIndex_atHeight hbottom
    rw [(hstep.scopes_end hf).1] at hend
    exact ⟨bottom, hbottom, hevolves.relaxed rfl, (Option.some.inj hend).symm⟩
  · exact (hstep.scopes_end hf).2 h frame.endIndex hh (ScopeStack.endIndex_atHeight hframe)
  · have := hstep.le_place hf
    exact Nat.le_trans this.1 this.2

/-- A source with a scope inside a scope. -/
def nestedScopes : String := "<?php function f($a) \x7b return fn($b) => $a + $b; \x7d"

theorem nestedScopes_run : ∃ file, SourceFile.ofSource "f.php" nestedScopes = .ok file
    ∧ let ctx := (Linter.mk .notice true [] []).context file
      file.size = 27
      ∧ (ctx.plan 0 (ctx.stateAt 0)).result.toOption = some 0
      ∧ (ctx.plan 0 (ctx.stateAt 0)).commands.length = 3
      ∧ (ctx.plan 1 (ctx.stateAt 3)).result.toOption = some 8
      ∧ (ctx.plan 1 (ctx.stateAt 3)).commands.length = 6
      ∧ (ctx.frameAt 9 1).map Frame.endIndex = some 26 :=
  exists_ok_of_decide (by decide +kernel)

/-- After the header of `f`, two steps into the scan, the scope of `f` is open up to the closing brace. -/
theorem Linter.nestedScopes_disciplined : ∃ file, SourceFile.ofSource "f.php" nestedScopes = .ok file
    ∧ let ctx := (Linter.mk .notice true [] []).context file
      ctx.StepAt 2 9 9
      ∧ ∃ frame i, ctx.frameAt 9 1 = some frame ∧ frame.endIndex = 26 ∧ ctx.OpenedAt 1 i 9 ∧ i < 26 := by
  obtain ⟨file, hfile, hsize, hfirst, hfirst_length, hsecond, hsecond_length, hframe⟩ := nestedScopes_run
  have hok : ∀ {r : ScanResult Nat} {last : Nat}, r.toOption = some last → r = .ok last := by
    intro r last hr
    cases r with
    | error e => cases hr
    | ok x => exact congrArg Except.ok (Option.some.inj hr)
  refine ⟨file, hfile, ?_⟩
  intro ctx
  have hlt : 1 < ctx.file.size := by
    rw [show ctx.file.size = 27 from hsize]
    decide
  have hopened : ctx.StepAt 1 3 1 := by
    have hstep := ScanContext.StepAt.start.next (Nat.lt_of_succ_lt hlt) (hok hfirst)
    rwa [hfirst_length] at hstep
  have hbody : ctx.StepAt 2 9 9 := by
    have hstep := hopened.next hlt (hok hsecond)
    rwa [hsecond_length] at hstep
  obtain ⟨frame, hat, hend⟩ := Option.map_eq_some_iff.mp hframe
  obtain ⟨i, hi, hbefore, _⟩ := (scan_disciplined _ hfile).2.2.1 2 9 9 1 frame hbody (by decide) hat
  exact ⟨hbody, frame, i, hat, hend, hi, by omega⟩

end Unassigned
