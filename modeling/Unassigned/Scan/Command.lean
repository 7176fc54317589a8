import Unassigned.Scan.State

/-!
# `Scan.Command` — what is done at a construct

A construct is dealt with in two parts. Its handler looks at the tokens around it and says what is to be
done, as a `Plan`: commands in order, and what they lead to. The commands are then performed one after the
other on the state of the scan.

A handler does not see what the scopes know: what a command does with a name that is known, or in a relaxed
scope, or in a file scope that is not checked, is decided when the command is performed. A plan that fails
does so after its commands.
-/

namespace Unassigned

/-! ## Commands -/

/-- In which way a variable is assigned. -/
inductive Role where
  | plain
  /-- The variable of a `catch`. -/
  | caught
  /-- Imported by a `global` statement. -/
  | imported
  /-- Captured by a closure. -/
  | captured (isRef : Bool)
  deriving DecidableEq, Repr

/-- Notes the role on a variable. -/
def Role.mark : Role → Variable → Variable
  | .plain, v => v
  | .caught, v => { v with isCatchVar := true }
  | .imported, v => { v with isGlobal := true }
  | .captured isRef, v => { v with isRefParam := isRef }

/-- An elementary act of a scan. -/
inductive Command where
  /-- On arrival at a place: a switch to relaxed mode that is due is applied. -/
  | applySwitch (i : Nat)
  /-- On arrival at a place: scopes that have ended are dropped. -/
  | dropFinished (i : Nat)
  /-- On arrival at a place: annotations of an earlier statement are forgotten. -/
  | forgetAnnotations (i : Nat)
  /-- Annotations hold up to the end of a statement. -/
  | annotate (declared : List (String × Option String)) (stop : Nat)
  /-- The annotation of a variable takes effect, if there is one. -/
  | applyDocComment (token : Token)
  /-- A plain read. -/
  | read (token : Token)
  /-- A read by a function that may set the variable. -/
  | readLeniently (token : Token)
  /-- A read that no setting and no construct silences. -/
  | check (token : Token)
  | assign (token : Token) (role : Role)
  /-- An assignment that creates the variable if need be, which is a finding. -/
  | autovivify (token : Token) (finding : Finding)
  /-- An assignment to a variable that has no value yet, otherwise a read. -/
  | coalesce (token : Token)
  /-- An update: of an unknown variable it is a finding, of a known one it is a read or, where the variable
      stands alone, a statement. -/
  | update (token : Token) (finding : Finding) (isAlone : Bool)
  /-- A statement that consists of a variable alone. -/
  | standAlone (token : Token)
  | declare (token : Token)
  /-- A test whether a variable is set: in a relaxed scope the variable becomes known. -/
  | test (token : Token)
  /-- The token at a place has been dealt with. -/
  | consume (i : Nat)
  /-- The current scope is to become relaxed at a place. -/
  | schedule (trigger : Token) (effectiveAt : Nat)
  /-- Something that is no variable is passed by reference. -/
  | rejectReference (token : Token)
  /-- A strict scope for a function; where it ends is not known yet. -/
  | openFunction
  /-- A scope for an arrow function, which knows what the scope around it knows. -/
  | openArrow (endIndex : Nat)
  | bindParameter (token : Token) (isRef : Bool)
  /-- A variable captured by value has to be known around the closure. -/
  | checkOuter (token : Token)
  /-- A variable captured by reference becomes known around the closure. -/
  | declareOuter (token : Token)
  /-- The scope of the function ends at a place. -/
  | endAt (endIndex : Nat)
  /-- A function without body needs no scope. -/
  | discard
  deriving DecidableEq, Repr

namespace ScanContext

variable (ctx : ScanContext)

/-- Applies a switch that is due at a place, and reports it if the scope was strict. -/
def applySwitch (i : Nat) (st : ScanState) : ScanState :=
  let (scopes, trigger) := st.scopes.applyPending i
  let st := { st with scopes }
  match trigger with
  | some t => ctx.report t .notice .relaxedMode st
  | none => st

/-- Applies the annotation of a variable, if there is one: its type is noted, and in a relaxed scope the
    variable becomes known. -/
def applyDocComment (token : Token) (st : ScanState) : ScanState :=
  match st.annotations.lookup token.text with
  | none => st
  | some type =>
    let st := match type with
      | some type => st.onScopes fun scopes => scopes.modifyTop fun frame =>
          frame.noteType token.text type
      | none => st
    if st.scopes.modeAt 0 == .relaxed then st.declare 0 token else st

/-- A statement that consists of a variable alone declares it. -/
def standAlone (token : Token) (st : ScanState) : ScanState :=
  (ctx.report token .notice .emptyDeclaration st).assign 0 token

/-- Performs a command. -/
def perform (command : Command) (st : ScanState) : ScanState :=
  match command with
  | .applySwitch i => ctx.applySwitch i st
  | .dropFinished i => st.onScopes fun scopes => scopes.dropFinished i
  | .forgetAnnotations i =>
    if st.annotationsEnd.all (· < i) then { st with annotations := [] } else st
  | .annotate declared stop => { st with annotations := declared, annotationsEnd := some stop }
  | .applyDocComment token => applyDocComment token st
  | .read token => ctx.read token st
  | .readLeniently token => if ctx.skipsReads st then st else ctx.check token true 0 true st
  | .check token => ctx.check token false 0 true st
  | .assign token role => st.assignWith 0 token role.mark
  | .autovivify token finding => ctx.autovivify token finding st
  | .coalesce token =>
    if ctx.isKnown st 0 token.text then ctx.check token false 0 true st else st.assign 0 token
  | .update token finding isAlone =>
    if ctx.isKnown st 0 token.text then
      if isAlone then ctx.standAlone token st else ctx.read token st
    else ctx.autovivify token finding st
  | .standAlone token => ctx.standAlone token st
  | .declare token => st.declare 0 token
  | .test token =>
    if st.scopes.modeAt 0 == .relaxed then (st.declare 0 token).consume token.index else st
  | .consume i => st.consume i
  | .schedule trigger effectiveAt => st.onScopes fun scopes => scopes.schedule trigger effectiveAt
  | .rejectReference token => ctx.report token .error .nonVariableByReference st
  | .openFunction => st.onScopes fun scopes => scopes.push { mode := .strict }
  | .openArrow endIndex =>
    st.onScopes fun scopes =>
      match scopes.frame? 0 with
      | some outer => scopes.push (outer.inner endIndex)
      | none => scopes
  | .bindParameter token isRef =>
    st.onScopes fun scopes => scopes.modifyTop fun frame =>
      frame.bind { token, status := .assigned, isRefParam := isRef }
  | .checkOuter token => ctx.check token false 1 false st
  | .declareOuter token => st.declare 1 token
  | .endAt endIndex =>
    st.onScopes fun scopes => scopes.modifyTop fun frame => { frame with endIndex := endIndex }
  | .discard => st.onScopes ScopeStack.pop

/-- Performs commands one after the other. -/
def execute (commands : List Command) (st : ScanState) : ScanState :=
  commands.foldl (fun st command => ctx.perform command st) st

end ScanContext

/-! ## Plans -/

/-- What is to be done at a construct, and what it leads to. -/
structure Plan (α : Type) where
  commands : List Command
  result : ScanResult α

namespace Plan

variable {α β : Type}

instance : Monad Plan where
  pure a := ⟨[], .ok a⟩
  bind plan next :=
    match plan.result with
    | .ok a => ⟨plan.commands ++ (next a).commands, (next a).result⟩
    | .error e => ⟨plan.commands, .error e⟩

/-- One command. -/
def emit (command : Command) : Plan Unit :=
  ⟨[command], .ok ()⟩

/-- Some commands. -/
def emitAll (commands : List Command) : Plan Unit :=
  ⟨commands, .ok ()⟩

/-- The error of a construct that is not followed by what belongs to it. -/
def fail (e : AnalysisError) : Plan α :=
  ⟨[], .error (.analysis e)⟩

@[simp] theorem commands_pure (a : α) : (pure a : Plan α).commands = [] := rfl

@[simp] theorem result_pure (a : α) : (pure a : Plan α).result = .ok a := rfl

@[simp] theorem commands_emit (command : Command) : (emit command).commands = [command] := rfl

@[simp] theorem result_emit (command : Command) : (emit command).result = .ok () := rfl

@[simp] theorem commands_emitAll (commands : List Command) :
    (emitAll commands).commands = commands := rfl

@[simp] theorem result_emitAll (commands : List Command) : (emitAll commands).result = .ok () := rfl

@[simp] theorem commands_fail (e : AnalysisError) : (fail e : Plan α).commands = [] := rfl

@[simp] theorem result_fail (e : AnalysisError) :
    (fail e : Plan α).result = .error (.analysis e) := rfl

theorem bind_of_ok {plan : Plan α} {a : α} (h : plan.result = .ok a) (next : α → Plan β) :
    plan >>= next = ⟨plan.commands ++ (next a).commands, (next a).result⟩ := by
  simp only [bind, h]

theorem bind_of_error {plan : Plan α} {e : ScanError} (h : plan.result = .error e)
    (next : α → Plan β) : plan >>= next = ⟨plan.commands, .error e⟩ := by
  simp only [bind, h]

/-- A plan in two parts succeeds if both do. -/
theorem result_bind_eq_ok {plan : Plan α} {next : α → Plan β} {b : β} :
    (plan >>= next).result = .ok b ↔ ∃ a, plan.result = .ok a ∧ (next a).result = .ok b := by
  cases h : plan.result with
  | ok a => simp [bind_of_ok h]
  | error e => simp [bind_of_error h]

end Plan

/-- The character `c` has to stand at a place. -/
def TokenStream.expect (f : TokenStream) (place : Option Nat) (c : Char) (construct : Construct)
    (keyword : Nat) : Plan Nat :=
  match place with
  | none => .fail (.charExpected c construct none (f.token keyword))
  | some i =>
    if f.isChar i c then pure i
    else .fail (.charExpected c construct (some (f.token i)) (f.token keyword))

theorem TokenStream.eq_of_expect (f : TokenStream) {place : Option Nat} {c : Char}
    {construct : Construct} {keyword i : Nat}
    (h : (f.expect place c construct keyword).result = .ok i) : place = some i ∧ f.isChar i c := by
  unfold expect at h
  split at h
  · simp at h
  · split at h
    · simp_all
    · simp at h

end Unassigned
