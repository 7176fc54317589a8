import Unassigned.Proofs.Moments

/-!
# `Proofs.PlanShape` — what a step of a scan can consist of

Said once, for all handlers: the plan of a step either stays in the current scope (**plain** commands, and
switches to relaxed mode that it schedules), or opens one scope for a function or arrow function and then
binds what its header declares. The scope of a function is given its end, or discarded if there is no body,
by the very last command; a header that fails leaves it open, and the scan stops. What a handler finds missing, it
blames on a token of the file (`TokenStream.Blamed`), except that of a call: the only thing it can miss is the argument
at a position.

`StepPlan` lists the plans of steps by what stands at the token, and `dispatch_shape` says what their commands are:
later proofs split a plan by these and do not go through all handlers again.
-/

namespace Unassigned

/-- The finding is that an assignment creates the variable. -/
def Finding.isCreation : Finding → Bool
  | .arrayAutovivification | .scalarAutovivification => true
  | _ => false

namespace Command

/-- A command that opens, ends and drops no scope, and acts on the current scope alone. -/
def isPlain : Command → Bool
  | .annotate _ _ | .applyDocComment _ | .read _ | .readLeniently _ | .check _ | .assign _ _
  | .autovivify _ _ | .coalesce _ | .update _ _ _ | .standAlone _ | .declare _ | .test _
  | .consume _ | .rejectReference _ => true
  | _ => false

/-- A command that leaves it to the settings whether a read is checked, and that finds nothing in an assignment but
    that it creates the variable. -/
def isGuarded : Command → Bool
  | .check _ | .checkOuter _ => false
  | .autovivify _ finding | .update _ finding _ => finding.isCreation
  | _ => true

/-- A read by a function that may set the variable. -/
def isLenient : Command → Bool
  | .readLeniently _ => true
  | _ => false

/-- A plain command that is guarded and no read by a function. -/
def isOrdinary (c : Command) : Bool :=
  c.isPlain && c.isGuarded && !c.isLenient

/-- A switch to relaxed mode is scheduled. -/
def isTrigger : Command → Bool
  | .schedule _ _ => true
  | _ => false

/-- An ordinary command, or a switch to relaxed mode. -/
def isUsual (c : Command) : Bool :=
  c.isOrdinary || c.isTrigger

/-- A command that a step can give without opening a scope. -/
def isLocal (c : Command) : Bool :=
  c.isPlain || c.isTrigger

/-- A command of the header of a function, given after its scope was opened. -/
def isHeader : Command → Bool
  | .bindParameter _ _ | .checkOuter _ | .declareOuter _ | .assign _ _ | .consume _ => true
  | _ => false

/-- A parameter is bound. -/
def isParameter : Command → Bool
  | .bindParameter _ _ => true
  | _ => false

/-- A command of a function: of its header, or about its scope. -/
def isOfFunction : Command → Bool
  | .openFunction | .openArrow _ | .endAt _ | .discard => true
  | c => c.isHeader

end Command

/-- The commands of a function after its scope was opened: those of its header, and then one for its body
    unless something in the header is missing. -/
inductive FunctionShape : List Command → Prop where
  | header {cs : List Command} (h : ∀ c ∈ cs, c.isHeader) : FunctionShape cs
  | body (cs : List Command) (endIndex : Nat) (h : ∀ c ∈ cs, c.isHeader) :
      FunctionShape (cs ++ [.endAt endIndex])
  | noBody (cs : List Command) (h : ∀ c ∈ cs, c.isHeader) : FunctionShape (cs ++ [.discard])

/-- The commands of a step after its arrival. -/
inductive StepShape : List Command → Prop where
  | stay {cs : List Command} (h : ∀ c ∈ cs, c.isLocal) : StepShape cs
  | arrow {cs : List Command} (endIndex : Nat) (h : ∀ c ∈ cs, c.isHeader) :
      StepShape (.openArrow endIndex :: cs)
  | function {cs : List Command} (h : FunctionShape cs) : StepShape (.openFunction :: cs)

namespace Command

variable {c : Command}

theorem isHeader_of_isParameter (h : c.isParameter) : c.isHeader := by
  cases c with
  | bindParameter => rfl
  | _ => cases h

theorem isOfFunction_of_isHeader (h : c.isHeader) : c.isOfFunction := by
  cases c <;> first | rfl | exact h

theorem isLocal_of_isPlain (h : c.isPlain) : c.isLocal := by
  simp [isLocal, h]

theorem isUsual_of_isOrdinary (h : c.isOrdinary) : c.isUsual := by
  simp [isUsual, h]

theorem isLocal_of_isUsual (h : c.isUsual) : c.isLocal := by
  simp only [isUsual, isOrdinary, isLocal, Bool.or_eq_true, Bool.and_eq_true] at h ⊢
  exact h.imp_left fun h => h.1.1

theorem isLocal_of_isOrdinary (h : c.isOrdinary) : c.isLocal :=
  isLocal_of_isUsual (isUsual_of_isOrdinary h)

theorem isGuarded_of_isUsual (h : c.isUsual) : c.isGuarded := by
  cases c with
  | schedule => rfl
  | _ => simp_all [isUsual, isOrdinary, isTrigger]

theorem not_lenient_of_isUsual (h : c.isUsual) : ¬ c.isLenient := by
  cases c with
  | readLeniently => cases h
  | _ => exact Bool.false_ne_true

theorem not_lenient_of_isOfFunction (h : c.isOfFunction) : ¬ c.isLenient := by
  cases c with
  | readLeniently => cases h
  | _ => exact Bool.false_ne_true

end Command

/-- All commands of a function belong to it. -/
theorem FunctionShape.isOfFunction {cs : List Command} (h : FunctionShape cs) : ∀ c ∈ cs, c.isOfFunction := by
  cases h with
  | header hcs => exact fun c hc => Command.isOfFunction_of_isHeader (hcs c hc)
  | body cs endIndex hcs | noBody cs hcs =>
      intro c hc
      rcases List.mem_append.mp hc with hc | hc
      · exact Command.isOfFunction_of_isHeader (hcs c hc)
      · rw [List.mem_singleton.mp hc]
        rfl

namespace Plan

variable {α β : Type} {p : Command → Bool} {q : ScanError → Prop} {plan : Plan α} {next : α → Plan β}

/-- An error of the plan satisfies `q`. -/
def FailsWith (q : ScanError → Prop) (plan : Plan α) : Prop :=
  ∀ e, plan.result = .error e → q e

/-- All commands of a plan satisfy `p`, and an error satisfies `q`. -/
structure Keeps (p : Command → Bool) (q : ScanError → Prop) (plan : Plan α) : Prop where
  all : ∀ c ∈ plan.commands, p c
  error : plan.FailsWith q

theorem failsWith_bind (h : plan.FailsWith q) (hnext : ∀ a, (next a).FailsWith q) : (plan >>= next).FailsWith q := by
  intro e he
  cases hr : plan.result with
  | error error =>
      rw [bind_of_error hr] at he
      obtain rfl : error = e := by simpa using he
      exact h error hr
  | ok a =>
      rw [bind_of_ok hr] at he
      exact hnext a e he

theorem keeps_pure (a : α) : (pure a : Plan α).Keeps p q :=
  ⟨List.forall_mem_nil _, fun _ he => nomatch he⟩

theorem keeps_fail {e : AnalysisError} (h : q (.analysis e)) : (fail e : Plan α).Keeps p q := by
  refine ⟨List.forall_mem_nil _, fun error herror => ?_⟩
  rwa [← Except.error.inj herror]

theorem keeps_emitAll {cs : List Command} (h : ∀ c ∈ cs, p c) : (emitAll cs).Keeps p q :=
  ⟨h, fun _ he => nomatch he⟩

theorem keeps_emit {c : Command} (h : p c) : (emit c).Keeps p q :=
  keeps_emitAll (List.forall_mem_singleton.mpr h)

theorem keeps_stay {cs : List Command} (h : ∀ c ∈ cs, p c) (i : Nat) : (stay cs i).Keeps p q :=
  ⟨h, fun _ he => nomatch he⟩

theorem keeps_bind (h : plan.Keeps p q) (hnext : ∀ a, (next a).Keeps p q) : (plan >>= next).Keeps p q := by
  refine ⟨?_, failsWith_bind h.error fun a => (hnext a).error⟩
  cases hr : plan.result with
  | error e => rw [bind_of_error hr]; exact h.all
  | ok a =>
      rw [bind_of_ok hr]
      exact List.forall_mem_append.mpr ⟨h.all, (hnext a).all⟩

theorem keeps_forM {xs : List α} {act : α → Plan Unit} (h : ∀ x ∈ xs, (act x).Keeps p q) : (xs.forM act).Keeps p q := by
  induction xs with
  | nil => exact keeps_pure ()
  | cons x xs ih =>
      exact keeps_bind (h x (by simp)) (fun _ => ih (fun y hy => h y (by simp [hy])))

theorem Keeps.bind_return {plan : Plan Unit} (h : plan.Keeps p q) (b : β) : (do plan; return b : Plan β).Keeps p q :=
  keeps_bind h (fun _ => keeps_pure b)

theorem Keeps.mono {p' : Command → Bool} (h : plan.Keeps p q) (hp : ∀ c, p c → p' c) : plan.Keeps p' q :=
  ⟨fun c hc => hp c (h.all c hc), h.error⟩

theorem bind_return_commands (plan : Plan Unit) (b : β) :
    (do plan; return b : Plan β).commands = plan.commands := by
  cases hr : plan.result with
  | error e => rw [bind_of_error hr]
  | ok a => rw [bind_of_ok hr]; simp

/-- What comes before the body of a function belongs to its header. -/
theorem functionShape_bind (h : plan.Keeps (·.isHeader) q)
    (hnext : ∀ a, FunctionShape (next a).commands ∧ (next a).FailsWith q) :
    FunctionShape (plan >>= next).commands ∧ (plan >>= next).FailsWith q := by
  refine ⟨?_, failsWith_bind h.error fun a => (hnext a).2⟩
  cases hr : plan.result with
  | error e => rw [bind_of_error hr]; exact .header h.all
  | ok a =>
      rw [bind_of_ok hr]
      have happend : ∀ {cs : List Command}, (∀ c ∈ cs, c.isHeader) → ∀ c ∈ plan.commands ++ cs, c.isHeader :=
        fun hcs => List.forall_mem_append.mpr ⟨h.all, hcs⟩
      have hshape := (hnext a).1
      show FunctionShape (plan.commands ++ (next a).commands)
      generalize (next a).commands = ds at hshape
      cases hshape with
      | header hcs => exact .header (happend hcs)
      | body cs e hcs => rw [← List.append_assoc]; exact .body _ e (happend hcs)
      | noBody cs hcs => rw [← List.append_assoc]; exact .noBody _ (happend hcs)

end Plan

open Plan

namespace TokenStream

variable (f : TokenStream) {p : Command → Bool}

/-- The keywords that include another file. -/
def isIncludeKeyword : Kind → Bool
  | .keyword .includeWord | .keyword .includeOnceWord | .keyword .requireWord
  | .keyword .requireOnceWord => true
  | _ => false

/-- The error is about a token of the file. -/
def Blamed (e : ScanError) : Prop :=
  ∃ error i, e = .analysis error ∧ error.token? = some (f.token i)

variable {f} in
theorem keeps_fail {α : Type} {error : AnalysisError} {i : Nat} (h : error.token? = some (f.token i)) :
    (fail error : Plan α).Keeps p f.Blamed :=
  Plan.keeps_fail ⟨error, i, rfl, h⟩

theorem commands_expect (place : Option Nat) (c : Char) (construct : Construct) (keyword : Nat) :
    (f.expect place c construct keyword).commands = [] := by
  unfold expect
  split
  · rfl
  · split <;> rfl

theorem expect_keeps (place : Option Nat) (c : Char) (construct : Construct) (keyword : Nat) :
    (f.expect place c construct keyword).Keeps p f.Blamed := by
  unfold expect
  split
  · exact keeps_fail rfl
  · split
    · exact keeps_pure _
    · exact keeps_fail rfl

/-! ## Calls -/

/-- What becomes of an argument of an unknown function. -/
theorem mem_passToUnknown {first : Nat} {c : Command} : c ∈ f.passToUnknown first
    ↔ ∃ q, f.withoutAmpersand first = some q ∧ f.kind q = .var ∧ f.isStandalone q
      ∧ (c = .readLeniently (f.token q) ∨ c = .consume q) := by
  unfold passToUnknown
  cases f.withoutAmpersand first with
  | none => simp
  | some q => simp [and_assoc]

theorem passToUnknown_plain (firsts : List Nat) : ∀ c ∈ firsts.flatMap f.passToUnknown, c.isPlain := by
  intro c hc
  obtain ⟨first, _, hc⟩ := List.mem_flatMap.mp hc
  obtain ⟨q, _, _, _, rfl | rfl⟩ := f.mem_passToUnknown.mp hc <;> rfl

/-- What becomes of a by-reference argument: a variable is checked if the function does not set it, and assigned
    otherwise. -/
theorem passByReference_cases {signature : Signature} {first : Nat} {c : Command}
    (h : c ∈ f.passByReference signature first) : c.isOrdinary
      ∨ signature.doesNotInitialize ∧ ∃ q after, f.withoutAmpersand first = some q ∧ f.kind q = .var
        ∧ f.afterIndexes q = (some after, false) ∧ f.isCharOf after [',', ')'] ∧ c = .check (f.token q) := by
  unfold passByReference at h
  split at h
  · cases h
  · next q hq =>
      split at h
      · cases h
      · split at h
        · next hvar =>
            dsimp only at h
            split at h
            · next hafter =>
                obtain ⟨after, hafter, hends⟩ := (Option.any_eq_true _ _).mp hafter
                split at h
                · next hkeeps =>
                    split at h
                    · cases h
                    · next hindexed =>
                        have hplace : f.afterIndexes q = (some after, false) :=
                          Prod.ext hafter (Bool.eq_false_iff.mpr hindexed)
                        rcases (by simpa using h) with rfl | rfl
                        · exact .inr ⟨hkeeps, q, after, hq, eq_of_beq hvar, hplace, hends, rfl⟩
                        · exact .inl rfl
                · rcases (by simpa using h) with rfl | rfl <;> exact .inl rfl
            · cases h
        · split at h
          · cases h
          · obtain rfl := List.mem_singleton.mp h
            exact .inl rfl

theorem passByReference_plain (signature : Signature) (first : Nat) :
    ∀ c ∈ f.passByReference signature first, c.isPlain := by
  intro c hc
  rcases f.passByReference_cases hc with h | ⟨_, q, _, _, _, _, _, rfl⟩
  · simp only [Command.isOrdinary, Bool.and_eq_true] at h
    exact h.1.1
  · rfl

/-- The one error in the arguments of a call is that of a position. -/
theorem passReferences_keeps (signature : Signature) (positional : List Nat) (positions : List Int) :
    (f.passReferences signature positional positions).Keeps (·.isPlain) (· = .positionOutOfRange) := by
  induction positions with
  | nil => exact keeps_pure ()
  | cons position rest ih =>
      unfold passReferences
      split
      · exact keeps_pure ()
      · split
        · exact ⟨List.forall_mem_nil _, fun e he => (Except.error.inj he).symm⟩
        next first _ => exact keeps_bind (keeps_emitAll (f.passByReference_plain signature first)) (fun _ => ih)

/-! ## Patterns and loops -/

theorem bindPattern_ordinary (close i : Nat) : ∀ c ∈ f.bindPattern close i, c.isOrdinary := by
  fun_induction bindPattern f close i with
  | case1 i hi hskip ih => exact ih
  | case2 i hi hskip isIndexed hslot ih =>
      intro c hc
      rcases List.mem_append.mp hc with hc | hc
      · cases isIndexed <;> rcases (by simpa [bindSlot] using hc) with rfl | rfl <;> rfl
      · exact ih c hc
  | case3 i hi hskip hslot ih => exact ih
  | case4 i hi => simp

theorem bindGroup_ordinary (opening : Nat) : ∀ c ∈ f.bindGroup opening, c.isOrdinary :=
  f.bindPattern_ordinary _ _

theorem handleList_keeps (i : Nat) : (f.handleList i).Keeps (·.isOrdinary) f.Blamed :=
  keeps_bind (f.expect_keeps _ _ _ _) (fun paren => keeps_emitAll (f.bindGroup_ordinary paren))

theorem handleBracket_ordinary (i : Nat) : ∀ c ∈ f.handleBracket i, c.isOrdinary := by
  unfold handleBracket
  split
  · exact f.bindGroup_ordinary i
  · simp

theorem bindForeachTarget_ordinary (place : Option Nat) :
    ∀ c ∈ (f.bindForeachTarget place).1, c.isOrdinary := by
  unfold bindForeachTarget
  intro c hc
  split at hc
  · simp at hc
  · split at hc
    · split at hc
      · simp at hc
      · split at hc
        · rcases (by simpa using hc) with rfl | rfl <;> rfl
        · simp at hc
    · split at hc
      · split at hc
        · simp at hc
        · split at hc
          · exact f.bindGroup_ordinary _ c hc
          · simp at hc
      · simp at hc

theorem bindForeachTargets_ordinary (i : Nat) : ∀ c ∈ f.bindForeachTargets i, c.isOrdinary := by
  have htarget := f.bindForeachTarget_ordinary
  unfold bindForeachTargets
  dsimp only
  split
  · split
    · exact List.forall_mem_append.mpr ⟨htarget _, htarget _⟩
    · exact htarget _
  · exact htarget _

theorem bindForeach_keeps (i : Nat) : (f.bindForeach i).Keeps (·.isOrdinary) f.Blamed := by
  refine keeps_bind (f.expect_keeps _ _ _ _) (fun paren => ?_)
  dsimp only
  split
  · exact keeps_fail rfl
  · split
    · exact keeps_emitAll (f.bindForeachTargets_ordinary _)
    · exact keeps_fail rfl

/-! ## Statements -/

theorem handleDocComment_ordinary (i : Nat) : ∀ c ∈ f.handleDocComment i, c.isOrdinary := by
  unfold handleDocComment
  dsimp only
  split <;> simp [Command.isOrdinary, Command.isPlain, Command.isGuarded, Command.isLenient]

theorem handleOccurrence_ordinary (i : Nat) : (f.handleOccurrence i).isOrdinary := by
  unfold handleOccurrence
  dsimp only
  split
  · split <;> rfl
  · split
    · rfl
    · split
      · cases (f.afterIndexes i).2 <;> rfl
      · split <;> rfl

theorem handleDollar_usual (i : Nat) : ∀ c ∈ f.handleDollar i, c.isUsual := by
  unfold handleDollar
  split
  · simp
  · split
    · split <;> simp [Command.isUsual, Command.isTrigger]
    · simp

theorem handleInclude_usual (i : Nat) : ∀ c ∈ f.handleInclude i, c.isUsual := by
  unfold handleInclude
  split <;> simp [Command.isUsual, Command.isTrigger]

theorem handleEval_usual (i : Nat) : ∀ c ∈ f.handleEval i, c.isUsual := by
  unfold handleEval
  intro c hc
  rcases List.mem_cons.mp hc with rfl | hc
  · rfl
  · obtain ⟨t, _, rfl⟩ := List.mem_map.mp hc
    rfl

theorem handleCaught_keeps (keyword : Nat) (place : Option Nat) :
    (f.handleCaught keyword place).Keeps (·.isOrdinary) f.Blamed := by
  unfold handleCaught
  split
  · exact f.expect_keeps _ _ _ _
  · split
    · exact keeps_bind (keeps_emit rfl) (fun _ => f.expect_keeps _ _ _ _)
    · exact f.expect_keeps _ _ _ _

theorem handleCatch_keeps (i : Nat) : (f.handleCatch i).Keeps (·.isOrdinary) f.Blamed := by
  refine keeps_bind (f.expect_keeps _ _ _ _) (fun paren => ?_)
  split
  · exact keeps_fail rfl
  · split
    · exact f.handleCaught_keeps _ _
    · exact keeps_fail rfl

/-- An item of a `global` statement checks the holder of a name. -/
theorem mem_globalItem {i holder : Nat} {c : Command} (h : c ∈ f.globalItem i holder) :
    c.isUsual ∨ f.kind i ≠ .var ∧ c = .check (f.token holder) := by
  unfold globalItem at h
  dsimp only at h
  split at h
  · obtain rfl := List.mem_singleton.mp h
    exact .inl rfl
  · next hvar =>
      rcases (by simpa using h) with rfl | rfl
      · exact .inr ⟨by simpa using hvar, rfl⟩
      · exact .inl rfl

theorem globalItem_local (i holder : Nat) : ∀ c ∈ f.globalItem i holder, c.isLocal := by
  intro c hc
  rcases f.mem_globalItem hc with h | ⟨_, rfl⟩
  · exact Command.isLocal_of_isUsual h
  · rfl

theorem handleGlobalItems_keeps (keyword i : Nat) :
    (f.handleGlobalItems keyword i).Keeps (·.isLocal) f.Blamed := by
  fun_induction handleGlobalItems f keyword i with
  | case1 => exact keeps_fail rfl
  | case2 i holder hholder ih =>
      refine keeps_bind (keeps_emitAll (f.globalItem_local i holder)) (fun _ => ?_)
      split
      · exact keeps_fail rfl
      next after hafter =>
        split
        · split
          · exact keeps_fail rfl
          next next hnext => exact ih after hafter next hnext
        · split
          · exact keeps_pure _
          · exact keeps_fail rfl

theorem handleGlobal_keeps (i : Nat) : (f.handleGlobal i).Keeps (·.isLocal) f.Blamed := by
  unfold handleGlobal
  split
  · exact keeps_fail rfl
  · exact f.handleGlobalItems_keeps _ _

theorem handleIsset_ordinary (i : Nat) : ∀ c ∈ f.handleIsset i, c.isOrdinary := by
  unfold handleIsset
  split <;> simp [Command.isOrdinary, Command.isPlain, Command.isGuarded, Command.isLenient]

/-! ## Functions -/

theorem declareParameters_keeps (paren : Nat) : (f.declareParameters paren).Keeps (·.isParameter) f.Blamed := by
  refine keeps_forM (fun first _ => ?_)
  dsimp only
  split
  · exact keeps_fail rfl
  · exact keeps_emit rfl

theorem declareParameters_header (paren : Nat) : (f.declareParameters paren).Keeps (·.isHeader) f.Blamed :=
  (f.declareParameters_keeps paren).mono fun _ => Command.isHeader_of_isParameter

theorem captureVariable_keeps (paren first : Nat) :
    (f.captureVariable paren first).Keeps (·.isHeader) f.Blamed := by
  unfold captureVariable
  dsimp only
  split
  · exact keeps_fail rfl
  · split
    · refine keeps_emitAll (fun c hc => ?_)
      rcases (by simpa using hc) with rfl | rfl | rfl
      · split <;> rfl
      · rfl
      · rfl
    · exact keeps_fail rfl

theorem handleCaptures_keeps (keyword close : Nat) :
    (f.handleCaptures keyword close).Keeps (·.isHeader) f.Blamed := by
  unfold handleCaptures
  split
  · exact keeps_pure _
  · refine keeps_bind (f.expect_keeps _ _ _ _) (fun paren => ?_)
    exact (keeps_forM fun first _ => f.captureVariable_keeps paren first).bind_return _

theorem handleBody_shape (keyword : Nat) (place : Option Nat) :
    FunctionShape (f.handleBody keyword place).commands ∧ (f.handleBody keyword place).FailsWith f.Blamed := by
  unfold handleBody
  split
  · exact ⟨.header (List.forall_mem_nil _), (keeps_fail (p := fun _ => true) rfl).error⟩
  · split
    · exact ⟨.noBody [] (by simp), by rintro _ ⟨⟩⟩
    · split
      · exact ⟨.body [] _ (by simp), by rintro _ ⟨⟩⟩
      · exact ⟨.header (List.forall_mem_nil _), (keeps_fail (p := fun _ => true) rfl).error⟩

/-- A function opens a scope, unless the keyword belongs to a `use`. -/
theorem handleFunction_shape (i : Nat) : ((f.handleFunction i).commands = []
    ∨ ∃ cs, (f.handleFunction i).commands = .openFunction :: cs ∧ FunctionShape cs)
      ∧ (f.handleFunction i).FailsWith f.Blamed := by
  unfold handleFunction
  split
  · exact ⟨.inl rfl, fun _ he => nomatch he⟩
  · rw [bind_of_ok (result_emit _)]
    refine And.imp_left (fun h => .inr ⟨_, rfl, h⟩) ?_
    refine functionShape_bind (f.expect_keeps _ _ _ _) (fun paren => ?_)
    refine functionShape_bind (f.declareParameters_header paren) (fun _ => ?_)
    exact functionShape_bind (f.handleCaptures_keeps i _) (fun close => f.handleBody_shape i _)

theorem handleFunction_keeps (i : Nat) : (f.handleFunction i).Keeps (·.isOfFunction) f.Blamed := by
  refine ⟨?_, (f.handleFunction_shape i).2⟩
  rcases (f.handleFunction_shape i).1 with h | ⟨cs, h, hcs⟩
  · simp [h]
  · rw [h]
    exact List.forall_mem_cons.mpr ⟨rfl, hcs.isOfFunction⟩

/-- An arrow function opens a scope, unless its double arrow is missing. -/
theorem commands_handleArrowFunction (i : Nat) : (f.handleArrowFunction i).commands = []
    ∨ ∃ e cs, (f.handleArrowFunction i).commands = .openArrow e :: cs ∧ ∀ c ∈ cs, c.isParameter := by
  unfold handleArrowFunction
  cases hparen : (f.expect (f.afterFunctionKeyword? i) '(' .arrowFunction i).result with
  | error e =>
      rw [bind_of_error hparen]
      exact .inl (f.commands_expect _ _ _ _)
  | ok paren =>
      rw [bind_of_ok hparen, f.commands_expect, List.nil_append]
      split
      · exact .inl rfl
      · rw [bind_of_ok (result_emit _)]
        exact .inr ⟨_, _, rfl, ((f.declareParameters_keeps paren).bind_return _).all⟩

theorem handleArrowFunction_keeps (i : Nat) : (f.handleArrowFunction i).Keeps (·.isOfFunction) f.Blamed := by
  refine keeps_bind (f.expect_keeps _ _ _ _) (fun paren => ?_)
  split
  · exact keeps_fail rfl
  · have hparameters := (f.declareParameters_header paren).mono fun _ => Command.isOfFunction_of_isHeader
    exact keeps_bind (keeps_emit rfl) (fun _ => hparameters.bind_return _)

end TokenStream

/-! ## Steps -/

namespace SourceFile

variable (f : SourceFile)

theorem handleLoop_keeps (i : Nat) : (f.handleLoop i).Keeps (·.isOrdinary) f.Blamed := by
  refine keeps_bind (keeps_emitAll ?_) (fun _ => ?_)
  · cases f.loopEnd? i with
    | none => simp
    | some last =>
        intro c hc
        obtain ⟨j, _, rfl⟩ := List.mem_map.mp hc
        rfl
  · split
    · exact f.bindForeach_keeps i
    · exact keeps_pure ()

theorem handleVariable_ordinary (i : Nat) : ∀ c ∈ f.handleVariable i, c.isOrdinary := by
  unfold handleVariable
  split
  · simp
  · intro c hc
    rcases (by simpa using hc) with rfl | rfl
    · rfl
    · split
      · rfl
      · exact f.handleOccurrence_ordinary i

theorem handleStatic_keeps (i : Nat) : (f.handleStatic i).Keeps (·.isOrdinary) f.Blamed := by
  unfold handleStatic
  split
  · exact keeps_pure ()
  · split
    · exact keeps_pure ()
    · split
      · exact keeps_pure ()
      · refine keeps_forM (fun j _ => ?_)
        split
        · exact keeps_emitAll (by simp [Command.isOrdinary, Command.isPlain, Command.isGuarded, Command.isLenient])
        · exact TokenStream.keeps_fail rfl

end SourceFile

namespace ScanContext

variable (ctx : ScanContext)

/-- The arguments of a call are only read, checked and set; a position for an argument can be out of range. -/
theorem handleCall_keeps (types : List (String × String)) (i paren : Nat) :
    (ctx.handleCall types i paren).Keeps (·.isPlain) (· = .positionOutOfRange) := by
  unfold handleCall
  dsimp only
  split
  · exact keeps_emitAll (ctx.file.passToUnknown_plain _)
  · split
    · exact keeps_pure ()
    · exact keeps_bind (keeps_emitAll (ctx.file.passToUnknown_plain _)) (fun _ => ctx.file.passReferences_keeps _ _ _)

/-- The name at `i` is that of a call, whose arguments open at `paren`. -/
structure OpensCall (i paren : Nat) : Prop where
  next : ctx.file.next? i = some paren
  opens : ctx.file.isChar paren '('
  notDeclared : ctx.file.prevIs i (.keyword .functionWord) = false

/-- A call of `extract` makes the scope relaxed. -/
def extractSwitch (i : Nat) : List Command :=
  if !ctx.file.prevAny i Kind.isMemberAccess && Text.lower (ctx.file.text i) == "extract" then
    [.schedule (ctx.file.token i) (ctx.file.statementEnd i)]
  else []

variable {ctx} in
theorem OpensCall.handleName_eq {i paren : Nat} (h : ctx.OpensCall i paren) (types : List (String × String)) :
    ctx.handleName types i = (do .emitAll (ctx.extractSwitch i); ctx.handleCall types i paren) := by
  have htest : ¬ (!ctx.file.isChar paren '(' || ctx.file.prevIs i (.keyword .functionWord)) := by
    simp [h.opens, h.notDeclared]
  unfold handleName
  dsimp only
  rw [h.next]
  dsimp only
  rw [if_neg htest]
  rfl

/-- Nothing is done at a name, unless it is that of a call. -/
theorem handleName_cases (types : List (String × String)) (i : Nat) :
    ctx.handleName types i = pure () ∨ ∃ paren, ctx.OpensCall i paren := by
  unfold handleName
  dsimp only
  split
  · exact .inl rfl
  next paren hparen =>
    split
    · exact .inl rfl
    next hcall =>
      obtain ⟨hopens, hnot⟩ : ctx.file.isChar paren '(' = true
          ∧ ctx.file.prevIs i (.keyword .functionWord) = false := by simpa using hcall
      exact .inr ⟨paren, hparen, hopens, hnot⟩

theorem extractSwitch_trigger (i : Nat) : ∀ c ∈ ctx.extractSwitch i, c.isTrigger := by
  unfold extractSwitch
  split <;> simp [Command.isTrigger]

theorem handleName_keeps (types : List (String × String)) (i : Nat) :
    (ctx.handleName types i).Keeps (·.isLocal) (· = .positionOutOfRange) := by
  rcases ctx.handleName_cases types i with h | ⟨paren, h⟩
  · rw [h]
    exact keeps_pure ()
  · rw [h.handleName_eq]
    have hswitch : ∀ c ∈ ctx.extractSwitch i, c.isLocal := fun c hc => by
      simp [Command.isLocal, ctx.extractSwitch_trigger i c hc]
    exact keeps_bind (keeps_emitAll hswitch) fun _ =>
      (ctx.handleCall_keeps types i paren).mono fun _ => Command.isLocal_of_isPlain

theorem dispatch_of_keyword {word : Keyword} {i : Nat} (h : ctx.file.kind i = .keyword word)
    (types : List (String × String)) : ctx.dispatch types i = ctx.file.handleKeyword word i := by
  unfold dispatch
  simp only [h]

/-- **The plan of a step**, by what stands at the token. -/
inductive StepPlan (types : List (String × String)) (i : Nat) : Plan Nat → Prop where
  /-- Ordinary commands at most; a `catch` alone goes on to a later token. -/
  | ordinary {plan : Plan Nat} (h : plan.Keeps (·.isOrdinary) ctx.file.Blamed)
      (hlast : plan = ctx.file.handleCatch i ∨ ∀ last, plan.result = .ok last → last = i) : StepPlan types i plan
  /-- A construct that can make the scope relaxed. -/
  | switch {cs : List Command} (h : ∀ c ∈ cs, c.isUsual)
      (hcs : TokenStream.isIncludeKeyword (ctx.file.kind i) ∧ cs = ctx.file.handleInclude i
        ∨ ctx.file.kind i = .keyword .evalWord ∧ cs = ctx.file.handleEval i
        ∨ ctx.file.kind i = .char '$' ∧ cs = ctx.file.handleDollar i) : StepPlan types i (.stay cs i)
  | name (h : ctx.file.kind i = .name) : StepPlan types i (do ctx.handleName types i; return i)
  | global (h : ctx.file.kind i = .keyword .globalWord) : StepPlan types i (ctx.file.handleGlobal i)
  | function (h : ctx.file.kind i = .keyword .functionWord) : StepPlan types i (ctx.file.handleFunction i)
  | arrow (h : ctx.file.kind i = .keyword .fnWord) : StepPlan types i (ctx.file.handleArrowFunction i)

namespace StepPlan

variable {ctx} {types : List (String × String)} {i : Nat}

theorem stay {cs : List Command} (h : ∀ c ∈ cs, c.isOrdinary) : ctx.StepPlan types i (.stay cs i) :=
  .ordinary (keeps_stay h i) (.inr fun _ hlast => (Except.ok.inj hlast).symm)

theorem bind_return {plan : Plan Unit} (h : plan.Keeps (·.isOrdinary) ctx.file.Blamed) :
    ctx.StepPlan types i (do plan; return i) := by
  refine .ordinary (h.bind_return i) (.inr fun last hlast => ?_)
  obtain ⟨_, _, hpure⟩ := result_bind_eq_ok.mp hlast
  exact (Except.ok.inj hpure).symm

theorem of_keyword {word : Keyword} (hword : ctx.file.kind i = .keyword word) :
    ctx.StepPlan types i (ctx.file.handleKeyword word i) := by
  unfold SourceFile.handleKeyword
  split
  iterate 4 exact .switch (ctx.file.handleInclude_usual i) (.inl ⟨by rw [hword]; rfl, rfl⟩)
  · exact .switch (ctx.file.handleEval_usual i) (.inr (.inl ⟨hword, rfl⟩))
  iterate 4 exact bind_return (ctx.file.handleLoop_keeps i)
  · exact .function hword
  · exact .arrow hword
  · exact .ordinary (ctx.file.handleCatch_keeps i) (.inl rfl)
  · exact bind_return (ctx.file.handleList_keeps i)
  · exact .global hword
  · exact bind_return (ctx.file.handleStatic_keeps i)
  iterate 2 exact stay (ctx.file.handleIsset_ordinary i)
  · exact stay (List.forall_mem_nil _)

end StepPlan

/-- **What a step is.** -/
theorem stepPlan (types : List (String × String)) (i : Nat) : ctx.StepPlan types i (ctx.dispatch types i) := by
  unfold dispatch
  dsimp only
  cases hkind : ctx.file.kind i with
  | docComment => exact .stay (ctx.file.handleDocComment_ordinary i)
  | var => exact .stay (ctx.file.handleVariable_ordinary i)
  | name => exact .name hkind
  | char c =>
      dsimp only
      split
      · next hdollar => exact .switch (ctx.file.handleDollar_usual i) (.inr (.inr ⟨by rw [hkind, hdollar], rfl⟩))
      · split
        · exact .stay (ctx.file.handleBracket_ordinary i)
        · exact .stay (List.forall_mem_nil _)
  | stringVarName => exact .stay (List.forall_mem_singleton.mpr rfl)
  | keyword word => exact .of_keyword hkind
  | _ => exact .stay (List.forall_mem_nil _)

theorem StepPlan.shape {types : List (String × String)} {i : Nat} {plan : Plan Nat} (h : ctx.StepPlan types i plan) :
    StepShape plan.commands := by
  cases h with
  | ordinary h => exact .stay fun c hc => Command.isLocal_of_isOrdinary (h.all c hc)
  | switch h => exact .stay fun c hc => Command.isLocal_of_isUsual (h c hc)
  | name => exact .stay ((ctx.handleName_keeps types i).bind_return i).all
  | global => exact .stay (ctx.file.handleGlobal_keeps i).all
  | function =>
      rcases (ctx.file.handleFunction_shape i).1 with h | ⟨cs, h, hcs⟩ <;> rw [h]
      · exact .stay (List.forall_mem_nil _)
      · exact .function hcs
  | arrow =>
      rcases ctx.file.commands_handleArrowFunction i with h | ⟨e, cs, h, hcs⟩ <;> rw [h]
      · exact .stay (List.forall_mem_nil _)
      · exact .arrow e fun c hc => Command.isHeader_of_isParameter (hcs c hc)

/-- **What a step can do** after its arrival. -/
theorem dispatch_shape (types : List (String × String)) (i : Nat) :
    StepShape (ctx.dispatch types i).commands :=
  (ctx.stepPlan types i).shape

/-- Only an `fn` opens the scope of an arrow function. -/
theorem kind_of_openArrow {types : List (String × String)} {i endIndex : Nat} {cs : List Command}
    (h : (ctx.dispatch types i).commands = .openArrow endIndex :: cs) :
    ctx.file.kind i = .keyword .fnWord := by
  have hplan := ctx.stepPlan types i
  have hmem : .openArrow endIndex ∈ (ctx.dispatch types i).commands := h ▸ List.mem_cons_self
  generalize ctx.dispatch types i = plan at hplan h hmem
  cases hplan with
  | ordinary hplan => cases hplan.all _ hmem
  | switch hcs => cases hcs _ hmem
  | name => cases ((ctx.handleName_keeps types i).bind_return i).all _ hmem
  | global => cases (ctx.file.handleGlobal_keeps i).all _ hmem
  | arrow hfn => exact hfn
  | function =>
      rcases (ctx.file.handleFunction_shape i).1 with hnil | ⟨_, hopen, _⟩
      · cases hnil.symm.trans h
      · cases hopen.symm.trans h

end ScanContext

end Unassigned
