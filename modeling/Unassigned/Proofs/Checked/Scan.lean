import Unassigned.Proofs.Checked.Stream

/-!
# `Proofs.Checked.Scan` — the constructs with look-ups that can fail

Each construct with a look-up is handled again, with the checked moves of `Proofs.Checked.Stream`. A plan that
takes look-ups to make is a computation that can fail before the plan is there (`andThen`).

At a token of a well nested file the checked handlers make the plans of the handlers (`dispatch_eq`).
-/

namespace Unassigned

/-- A token that opens no group has none to pass. -/
theorem TokenStream.WellNested.skipGroup_of_not_opens {f : TokenStream} (hf : f.WellNested) {i : Nat}
    (h : ¬ f.opens i) : f.skipGroup i = i := by
  cases hk : f.closer? i with
  | none => exact TokenStream.skipGroup_of_none hk
  | some k =>
      obtain ⟨_, hclosing, hsort⟩ := hf.sorts hk
      refine absurd ?_ h
      rw [TokenStream.opens, hsort]
      exact hclosing

namespace Checked

/-! ## Plans -/

section Plans

variable {α β : Type}

/-- A plan in two parts, of which the second has look-ups. -/
def andThen (plan : Plan α) (next : α → Except Fault (Plan β)) : Except Fault (Plan β) :=
  match plan.result with
  | .error e => return ⟨plan.commands, .error e⟩
  | .ok a => do
    let rest ← next a
    return ⟨plan.commands ++ rest.commands, rest.result⟩

/-- The first part tells what the look-ups of the second rely on. -/
theorem andThen_eq {plan : Plan α} {next : α → Except Fault (Plan β)} {next' : α → Plan β}
    (h : ∀ a, plan.result = .ok a → next a = .ok (next' a)) : andThen plan next = .ok (plan >>= next') := by
  unfold andThen
  cases hresult : plan.result with
  | error e => rw [Plan.bind_of_error hresult]; rfl
  | ok a =>
      rw [Plan.bind_of_ok hresult]
      dsimp only
      rw [h a hresult]
      rfl

/-- One plan after the other, for the elements of a list. -/
def forEach (act : α → Except Fault (Plan Unit)) : List α → Except Fault (Plan Unit)
  | [] => return pure ()
  | x :: xs => do
    let plan ← act x
    andThen plan fun _ => forEach act xs

/-- By induction on the elements. -/
theorem forEach_eq {act : α → Except Fault (Plan Unit)} {act' : α → Plan Unit} (h : ∀ x, act x = .ok (act' x))
    (xs : List α) : forEach act xs = .ok (xs.forM act') := by
  induction xs with
  | nil => rfl
  | cons x xs ih =>
      rw [forEach, h x, ok_bind, andThen_eq fun _ _ => ih]
      rfl

end Plans

variable (f : TokenStream)
variable {file : SourceFile} {ctx : ScanContext}

/-! ## Variables -/

/-- As `TokenStream.afterIndexes`. -/
def afterIndexes (i : Nat) : Except Fault (Option Nat × Bool) :=
  match _h : f.next? i with
  | none => return (none, false)
  | some j =>
    if f.isChar j '[' then do
      let ⟨k, _hk⟩ ← closeIf f true j
      let (after, _) ← afterIndexes k
      return (after, true)
    else return (some j, false)
termination_by f.size - i
decreasing_by
  have hnext := f.next?_bounds _h
  omega

/-- As `SourceFile.handleVariable`; the indexes after the variable are passed first. -/
def handleVariable (file : SourceFile) (i : Nat) : Except Fault (List Command) := do
  let _ ← afterIndexes file.toTokenStream i
  return file.handleVariable i

/-- As `TokenStream.handleDollar`. -/
def handleDollar (i : Nat) : Except Fault (List Command) :=
  match f.next? i with
  | none => return []
  | some n =>
    if f.kind n == .var || f.isChar n '\x7b' then do
      let ⟨k, _⟩ ← closeIf f (f.isChar n '\x7b') n
      let (after, _) ← afterIndexes f k
      return if after.any fun j => f.isChar j '=' then [.schedule (f.token n) (f.statementEnd n)] else []
    else return []

/-! ## Patterns -/

/-- As `TokenStream.slot?`. -/
def slot (i : Nat) : Except Fault (Option Bool) := do
  let (after, isIndexed) ← afterIndexes f i
  return if f.kind i == .var && f.startsSlot i && after.any fun j => f.isCharOf j [',', ')', ']'] then
    some isIndexed
  else none

/-- As `TokenStream.bindPattern`. -/
def bindPattern (stop i : Nat) : Except Fault (List Command) :=
  if i < stop then do
    let _ ← token f i
    if f.isCharOf i ['[', '('] && f.followsOperand i then
      let ⟨k, _hk⟩ ← closeIf f true i
      bindPattern stop (k + 1)
    else
      let isSlot ← slot f i
      let rest ← bindPattern stop (i + 1)
      match isSlot with
      | some isIndexed => return f.bindSlot i isIndexed ++ rest
      | none => return rest
  else return []
termination_by stop - i

/-- As `TokenStream.bindGroup`. -/
def bindGroup (opening : Nat) : Except Fault (List Command) := do
  let k ← close f opening
  bindPattern f k (opening + 1)

/-- As `TokenStream.handleList`. -/
def handleList (i : Nat) : Except Fault (Plan Unit) :=
  andThen (f.expect (f.next? i) '(' .listPattern i) fun paren => do
    let commands ← bindGroup f paren
    return .emitAll commands

/-- As `TokenStream.handleBracket`. -/
def handleBracket (i : Nat) : Except Fault (List Command) :=
  if f.followsOperand i then return []
  else do
    let k ← close f i
    if f.nextIs k '=' then bindGroup f i else return []

/-! ## Calls -/

/-- As `TokenStream.passByReference`; the indexes after the variable are passed first. -/
def passByReference (signature : Signature) (first : Nat) : Except Fault (List Command) := do
  match f.withoutAmpersand first with
  | none => return []
  | some i =>
    let _ ← afterIndexes f i
    return f.passByReference signature first

/-- As `TokenStream.passReferences`. -/
def passReferences (signature : Signature) (positional : List Nat) : List Int → Except Fault (Plan Unit)
  | [] => return pure ()
  | position :: rest =>
    if (positional.length : Int) ≤ position then return pure ()
    else
      match elementAt? positional position with
      | none => return ⟨[], .error .positionOutOfRange⟩
      | some first => do
        let commands ← passByReference f signature first
        andThen (.emitAll commands) fun _ => passReferences signature positional rest

/-- As `ScanContext.handleCall`. -/
def handleCall (ctx : ScanContext) (types : List (String × String)) (i paren : Nat) : Except Fault (Plan Unit) := do
  let f := ctx.file
  let _ ← arguments f.toTokenStream paren
  let positional := f.positionalArguments paren
  let named := f.namedArguments paren
  match ctx.callSignature? types i with
  | none => return .emitAll ((positional ++ named).flatMap f.passToUnknown)
  | some signature =>
    if signature.refs.isEmpty then return pure ()
    else
      andThen (.emitAll (named.flatMap f.passToUnknown)) fun _ =>
        passReferences f.toTokenStream signature positional signature.refs

/-- As `ScanContext.handleName`. -/
def handleName (ctx : ScanContext) (types : List (String × String)) (i : Nat) : Except Fault (Plan Unit) :=
  let f := ctx.file
  match f.next? i with
  | none => return pure ()
  | some paren =>
    if !f.isChar paren '(' || f.prevIs i (.keyword .functionWord) then return pure ()
    else
      let isExtract := !f.prevAny i Kind.isMemberAccess && Text.lower (f.text i) == "extract"
      andThen (.emitAll (if isExtract then [.schedule (f.token i) (f.statementEnd i)] else [])) fun _ =>
        handleCall ctx types i paren

/-! ## Loops -/

/-- As `TokenStream.opensColonBody`. -/
def opensColonBody (i : Nat) : Except Fault Bool :=
  match f.next? i with
  | none => return false
  | some paren =>
    if f.isChar paren '(' then do
      let k ← close f paren
      return f.nextIs k ':'
    else return false

/-- As `TokenStream.colonBodyEnd?`. -/
def colonBodyEnd (loop closing : Kind) (depth : Nat) : List Nat → Except Fault (Option Nat)
  | [] => return none
  | i :: rest =>
    if f.kind i == loop then do
      let isOpen ← opensColonBody f i
      colonBodyEnd loop closing (if isOpen then depth + 1 else depth) rest
    else if f.kind i == closing then
      if depth = 1 then return some i else colonBodyEnd loop closing (depth - 1) rest
    else colonBodyEnd loop closing depth rest

/-- The keyword that ends the body after a colon of a loop. -/
def loopEndKeyword (kind : Kind) : Except Fault Kind :=
  match TokenStream.loopEndKeyword? kind with
  | some closing => return closing
  | none => .error (.noClosingKeyword kind)

/-- As `TokenStream.whileCondition?`. -/
def whileCondition (i : Nat) : Except Fault (Option Nat) :=
  match f.next? i with
  | none => return none
  | some keyword =>
    match f.next? keyword with
    | none => return none
    | some paren =>
      if f.kind keyword == .keyword .whileWord && f.isChar paren '(' then do
        let k ← close f paren
        return some k
      else return none

/-- As `TokenStream.doLoopEnd?`. -/
def doLoopEnd (i : Nat) : Except Fault (Option Nat) :=
  match f.next? i with
  | none => return none
  | some body => do
    let ⟨k, _⟩ ← closeIf f (f.isChar body '\x7b') body
    match if f.isChar body '\x7b' then some k else f.statementEnd? i with
    | none => return none
    | some last =>
      let condition ← whileCondition f last
      return some (condition.getD last)

/-- As `TokenStream.headedLoopEnd?`. -/
def headedLoopEnd (i : Nat) : Except Fault (Option Nat) :=
  match f.next? i with
  | none => return none
  | some paren =>
    if !f.isChar paren '(' then return none
    else do
      let k ← close f paren
      match f.next? k with
      | none => return some k
      | some n =>
        if f.isChar n '\x7b' then do
          let last ← close f n
          return some last
        else if f.isChar n ';' then return some n
        else if f.isChar n ':' then do
          let closing ← loopEndKeyword (f.kind i)
          colonBodyEnd f (f.kind i) closing 0 (placesBetween i (f.size - 1))
        else return f.statementEnd? k

/-- As `TokenStream.loopEnd?`. -/
def loopEnd (i : Nat) : Except Fault (Option Nat) :=
  if f.kind i == .keyword .doWord then doLoopEnd f i else headedLoopEnd f i

/-- As `TokenStream.bindForeachTarget`. -/
def bindForeachTarget (place : Option Nat) : Except Fault (List Command × Option Nat) :=
  match place.bind f.withoutAmpersand with
  | none => return ([], none)
  | some i =>
    if f.kind i == .var then
      match f.next? i with
      | none => return ([], none)
      | some n =>
        if f.isChar n ')' || f.kind n == .doubleArrow then
          return ([.assign (f.token i) .plain, .consume i], some n)
        else return ([], some n)
    else if f.kind i == .keyword .listWord || f.isChar i '[' then
      match if f.kind i == .keyword .listWord then f.next? i else some i with
      | none => return ([], none)
      | some opening =>
        if f.isCharOf opening ['[', '('] then do
          let k ← close f opening
          let commands ← bindPattern f k (opening + 1)
          return (commands, f.next? k)
        else return ([], some opening)
    else return ([], f.next? i)

/-- As `TokenStream.bindForeachTargets`. -/
def bindForeachTargets (i : Nat) : Except Fault (List Command) := do
  let (commands, after) ← bindForeachTarget f (f.next? i)
  match after with
  | none => return commands
  | some arrow =>
    if f.kind arrow == .doubleArrow then do
      let (more, _) ← bindForeachTarget f (f.next? arrow)
      return commands ++ more
    else return commands

/-- As `TokenStream.bindForeach`. -/
def bindForeach (i : Nat) : Except Fault (Plan Unit) :=
  andThen (f.expect (f.next? i) '(' .foreachLoop i) fun paren => do
    let k ← close f paren
    match f.searchOutside? (fun j => k ≤ j || f.kind j == .keyword .asWord) paren with
    | none => return .fail (.asExpected (f.token i))
    | some stop =>
      if f.kind stop == .keyword .asWord then do
        let commands ← bindForeachTargets f stop
        return .emitAll commands
      else return .fail (.asExpected (f.token i))

/-- As `SourceFile.handleLoop`. -/
def handleLoop (file : SourceFile) (i : Nat) : Except Fault (Plan Unit) := do
  let last ← loopEnd file.toTokenStream i
  andThen (.emitAll ((last.map fun last => file.predeclare i last).getD [])) fun _ =>
    if file.kind i == .keyword .foreachWord then bindForeach file.toTokenStream i else return pure ()

/-! ## Functions -/

/-- As `TokenStream.functionStop?`. -/
def functionStop (close : Nat) : Except Fault (Option Nat) :=
  match f.next? close with
  | none => return none
  | some n => if f.isChar n ':' then afterReturnType f n else return some n

/-- As `TokenStream.arrowStop?`. -/
def arrowStop (close : Nat) : Except Fault (Option Nat) := do
  let stop ← search f (fun j => f.isCharOf j ['(', '\x7b']) (fun j => f.kind j == .doubleArrow || f.isChar j ';') close
  return stop.filter fun j => f.kind j == .doubleArrow

/-- As `TokenStream.declareParameters`. -/
def declareParameters (paren : Nat) : Except Fault (Plan Unit) := do
  let firsts ← arguments f paren
  forEach (fun first => do
    let parameter ← parameterFrom f false false first
    match parameter.varIndex with
    | none => return .fail (.parameterExpected (f.token first))
    | some i => return .emit (.bindParameter (f.token i) parameter.isRef)) firsts

/-- As `TokenStream.handleCaptures`. -/
def handleCaptures (keyword close : Nat) : Except Fault (Plan Nat) :=
  match f.useKeyword? keyword close with
  | none => return pure close
  | some i =>
    andThen (f.expect (f.next? i) '(' .closureHeader keyword) fun paren => do
      let firsts ← arguments f paren
      andThen (firsts.forM fun first => f.captureVariable paren first) fun _ => do
        let k ← Checked.close f paren
        return pure k

/-- As `TokenStream.handleBody`. -/
def handleBody (keyword : Nat) (place : Option Nat) : Except Fault (Plan Nat) :=
  match place with
  | none => return .fail (.bodyExpected none (f.token keyword))
  | some stop =>
    if f.isChar stop ';' then return do
      .emit .discard
      return stop
    else if f.isChar stop '\x7b' then do
      let k ← close f stop
      return do
        .emit (.endAt k)
        return stop
    else return .fail (.bodyExpected (some (f.token stop)) (f.token keyword))

/-- As `TokenStream.handleFunction`. -/
def handleFunction (i : Nat) : Except Fault (Plan Nat) :=
  if f.prevIs i (.keyword .useWord) then return pure i
  else
    andThen (.emit .openFunction) fun _ =>
      andThen (f.expect (f.functionParen? i) '(' .functionHeader i) fun paren => do
        let parameters ← declareParameters f paren
        andThen parameters fun _ => do
          let k ← close f paren
          let captures ← handleCaptures f i k
          andThen captures fun k => do
            let stop ← functionStop f k
            handleBody f i stop

/-- As `TokenStream.handleArrowFunction`. -/
def handleArrowFunction (i : Nat) : Except Fault (Plan Nat) :=
  andThen (f.expect (f.afterFunctionKeyword? i) '(' .arrowFunction i) fun paren => do
    let k ← close f paren
    match ← arrowStop f k with
    | none => return .fail (.doubleArrowExpected (f.token i))
    | some stop =>
      andThen (.emit (.openArrow (f.expressionEnd stop))) fun _ => do
        let parameters ← declareParameters f paren
        andThen parameters fun _ => return pure stop

/-! ## Steps -/

/-- As `SourceFile.handleKeyword`. -/
def handleKeyword (file : SourceFile) (word : Keyword) (i : Nat) : Except Fault (Plan Nat) :=
  match word with
  | .forWord | .foreachWord | .whileWord | .doWord => do
    let plan ← handleLoop file i
    andThen plan fun _ => return pure i
  | .functionWord => handleFunction file.toTokenStream i
  | .fnWord => handleArrowFunction file.toTokenStream i
  | .listWord => do
    let plan ← handleList file.toTokenStream i
    andThen plan fun _ => return pure i
  | word => return file.handleKeyword word i

/-- As `ScanContext.dispatch`. -/
def dispatch (ctx : ScanContext) (types : List (String × String)) (i : Nat) : Except Fault (Plan Nat) :=
  let f := ctx.file
  match f.kind i with
  | .var => do
    let commands ← handleVariable f i
    return .stay commands i
  | .name => do
    let plan ← handleName ctx types i
    andThen plan fun _ => return pure i
  | .char c =>
    if c = '$' then do
      let commands ← handleDollar f.toTokenStream i
      return .stay commands i
    else if c = '[' then do
      let commands ← handleBracket f.toTokenStream i
      return .stay commands i
    else return .stay [] i
  | .keyword word => handleKeyword f word i
  | _ => return ctx.dispatch types i

/-! ## The checked plans are the plans -/

section Equal

variable {f} (hf : f.WellNested)
variable {i : Nat}

include hf

/-- Only the brackets of indexes are passed, and each is closed. -/
theorem afterIndexes_eq (i : Nat) : afterIndexes f i = .ok (f.afterIndexes i) := by
  fun_induction TokenStream.afterIndexes f i with
  | case1 i hnext =>
      rw [afterIndexes]
      split
      · rfl
      · next j hj => cases hnext.symm.trans hj
  | case2 i j hnext hindex ih =>
      rw [afterIndexes]
      split
      · next hnone => cases hnext.symm.trans hnone
      · next j' hnext' =>
          obtain rfl : j' = j := Option.some.inj (hnext'.symm.trans hnext)
          rw [if_pos hindex, closeIf_eq hf fun _ => TokenStream.opens_of_isChar hindex rfl, ok_bind]
          show (afterIndexes f (f.skipGroup j') >>= fun r => pure (r.1, true)) = _
          rw [ih]
          rfl
  | case3 i j hnext hindex =>
      rw [afterIndexes]
      split
      · next hnone => cases hnext.symm.trans hnone
      · next j' hnext' =>
          obtain rfl : j' = j := Option.some.inj (hnext'.symm.trans hnext)
          rw [if_neg hindex]
          rfl

theorem handleDollar_eq (i : Nat) : handleDollar f i = .ok (f.handleDollar i) := by
  rw [handleDollar, TokenStream.handleDollar]
  cases f.next? i with
  | none => rfl
  | some n =>
      refine ite_eq (fun htarget => ?_) fun _ => rfl
      -- a variable is passed as a group of its own
      have hskip : (if f.isChar n '\x7b' then f.skipGroup n else n) = f.skipGroup n := by
        split
        · rfl
        · next hbrace =>
            have hvar : f.kind n = .var := eq_of_beq ((Bool.or_eq_true_iff.mp htarget).resolve_right hbrace)
            refine (hf.skipGroup_of_not_opens ?_).symm
            rw [TokenStream.opens, hvar]
            exact Bool.false_ne_true
      rw [closeIf_eq hf fun h => TokenStream.opens_of_isChar h rfl, ok_bind]
      dsimp only
      rw [hskip, afterIndexes_eq hf, ok_bind]
      rfl

theorem slot_eq (i : Nat) : slot f i = .ok (f.slot? i) := by
  rw [slot, afterIndexes_eq hf]
  rfl

/-- By recursion on the places up to the end of the pattern, which is in the file. -/
theorem bindPattern_eq {stop : Nat} (hstop : stop ≤ f.size) (i : Nat) :
    bindPattern f stop i = .ok (f.bindPattern stop i) := by
  fun_induction TokenStream.bindPattern f stop i with
  | case1 i hi hindex ih =>
      rw [bindPattern, if_pos hi, token_eq (Nat.lt_of_lt_of_le hi hstop), ok_bind, if_pos hindex]
      have hopens : f.opens i :=
        TokenStream.opens_of_isCharOf (Bool.and_eq_true_iff.mp hindex).1 (by decide)
      rw [closeIf_eq hf fun _ => hopens, ok_bind]
      exact ih
  | case2 i hi hindex isIndexed hslot ih =>
      rw [bindPattern, if_pos hi, token_eq (Nat.lt_of_lt_of_le hi hstop), ok_bind, if_neg hindex, slot_eq hf,
        ok_bind, ih, ok_bind, hslot]
      rfl
  | case3 i hi hindex hslot ih =>
      rw [bindPattern, if_pos hi, token_eq (Nat.lt_of_lt_of_le hi hstop), ok_bind, if_neg hindex, slot_eq hf,
        ok_bind, ih, ok_bind, hslot]
      rfl
  | case4 i hi =>
      rw [bindPattern, if_neg hi]
      rfl

/-- The group of an opening bracket has an end. -/
theorem bindGroup_eq {opening : Nat} (h : f.opens opening) : bindGroup f opening = .ok (f.bindGroup opening) := by
  have hbounds := hf.skipGroup_bounds h
  rw [bindGroup, close_eq hf h, ok_bind, bindPattern_eq hf (Nat.le_of_lt hbounds.2)]
  rfl

theorem handleList_eq (i : Nat) : handleList f i = .ok (f.handleList i) := by
  refine andThen_eq fun paren hparen => ?_
  have hopens := TokenStream.opens_of_isChar (f.eq_of_expect hparen).2 rfl
  rw [bindGroup_eq hf hopens]
  rfl

/-- A bracket opens a group, so the look-up of its end succeeds. -/
theorem handleBracket_eq (h : f.isChar i '[') : handleBracket f i = .ok (f.handleBracket i) := by
  have hopens := TokenStream.opens_of_isChar h rfl
  rw [handleBracket, TokenStream.handleBracket]
  cases f.followsOperand i with
  | true => rfl
  | false =>
      rw [if_neg Bool.false_ne_true, close_eq hf hopens, ok_bind]
      exact ite_eq (fun _ => bindGroup_eq hf hopens) fun _ => rfl

/-- The look-ups are those of the indexes behind the variable. -/
theorem passByReference_eq (signature : Signature) (first : Nat) :
    passByReference f signature first = .ok (f.passByReference signature first) := by
  rw [passByReference]
  cases hfirst : f.withoutAmpersand first with
  | none => simp [TokenStream.passByReference, hfirst]; rfl
  | some i =>
      dsimp only
      rw [afterIndexes_eq hf]
      rfl

theorem passReferences_eq (signature : Signature) (positional : List Nat) (refs : List Int) :
    passReferences f signature positional refs = .ok (f.passReferences signature positional refs) := by
  induction refs with
  | nil => rfl
  | cons position rest ih =>
      refine ite_eq (fun _ => rfl) fun _ => ?_
      cases elementAt? positional position with
      | none => rfl
      | some first =>
          dsimp only
          rw [passByReference_eq hf, ok_bind]
          exact andThen_eq fun _ _ => ih

/-! ### Loops -/

theorem opensColonBody_eq (i : Nat) : opensColonBody f i = .ok (f.opensColonBody i) := by
  rw [opensColonBody, TokenStream.opensColonBody]
  cases f.next? i with
  | none => rfl
  | some paren =>
      dsimp only
      by_cases hparen : f.isChar paren '('
      · rw [if_pos hparen, close_eq hf (TokenStream.opens_of_isChar hparen rfl), Option.any_some, hparen]
        rfl
      · rw [if_neg hparen, Option.any_some, (Bool.not_eq_true _).mp hparen]
        rfl

/-- By induction on the places, for every depth. -/
theorem colonBodyEnd_eq (loop closing : Kind) (depth : Nat) (places : List Nat) :
    colonBodyEnd f loop closing depth places = .ok (f.colonBodyEnd? loop closing depth places) := by
  induction places generalizing depth with
  | nil => rfl
  | cons i rest ih =>
      refine ite_eq (fun _ => ?_) fun _ => ite_eq (fun _ => ite_eq (fun _ => rfl) fun _ => ih _) fun _ => ih _
      rw [opensColonBody_eq hf, ok_bind]
      exact ih _

theorem whileCondition_eq (i : Nat) : whileCondition f i = .ok (f.whileCondition? i) := by
  rw [whileCondition, TokenStream.whileCondition?]
  cases f.next? i with
  | none => rfl
  | some keyword =>
      simp only [Option.bind_eq_bind, Option.bind_some]
      cases f.next? keyword with
      | none => rfl
      | some paren =>
          refine ite_eq (fun h => ?_) fun _ => rfl
          have hopens := TokenStream.opens_of_isChar (Bool.and_eq_true_iff.mp h).2 rfl
          rw [close_eq hf hopens]
          rfl

theorem doLoopEnd_eq (i : Nat) : doLoopEnd f i = .ok (f.doLoopEnd? i) := by
  rw [doLoopEnd, TokenStream.doLoopEnd?]
  cases f.next? i with
  | none => rfl
  | some body =>
      dsimp only
      rw [closeIf_eq hf fun h => TokenStream.opens_of_isChar h rfl, ok_bind]
      by_cases hbrace : f.isChar body '\x7b'
      · simp only [hbrace, if_true, Option.bind_eq_bind, Option.bind_some, whileCondition_eq hf, ok_bind]
        rfl
      · simp only [hbrace, Option.bind_eq_bind, Option.bind_some]
        cases f.statementEnd? i with
        | none => rfl
        | some last =>
            simp only [whileCondition_eq hf]
            rfl

/-- The table has a closing keyword for each loop with a header. -/
theorem headedLoopEnd_eq (hloop : (TokenStream.loopEndKeyword? (f.kind i)).isSome) :
    headedLoopEnd f i = .ok (f.headedLoopEnd? i) := by
  obtain ⟨closing, hclosing⟩ := Option.isSome_iff_exists.mp hloop
  rw [headedLoopEnd, TokenStream.headedLoopEnd?]
  cases f.next? i with
  | none => rfl
  | some paren =>
      refine ite_eq (fun _ => rfl) fun hparen => ?_
      have hopens : f.opens paren := TokenStream.opens_of_isChar (by simpa using hparen) rfl
      rw [close_eq hf hopens, ok_bind]
      cases f.next? (f.skipGroup paren) with
      | none => rfl
      | some n =>
          refine ite_eq (fun hbrace => ?_) fun _ => ite_eq (fun _ => rfl) fun _ => ite_eq (fun _ => ?_) fun _ => rfl
          · rw [close_eq hf (TokenStream.opens_of_isChar hbrace rfl)]
            rfl
          · rw [loopEndKeyword, hclosing]
            exact colonBodyEnd_eq hf _ _ _ _

/-- A loop keyword is `do` or has an entry in the table. -/
theorem loopEnd_eq (hloop : TokenStream.isLoopKeyword (f.kind i)) : loopEnd f i = .ok (f.loopEnd? i) := by
  -- of the loop keywords only that of a do loop has no closing one, and such a loop is treated apart
  refine ite_eq (fun _ => doLoopEnd_eq hf i) fun hdo => headedLoopEnd_eq hf ?_
  unfold TokenStream.isLoopKeyword at hloop
  split at hloop
  · next hkind => rw [hkind]; rfl
  · next hkind => rw [hkind]; rfl
  · next hkind => rw [hkind]; rfl
  · next hkind => exact absurd (beq_iff_eq.mpr hkind) hdo
  · cases hloop

theorem bindForeachTarget_eq (place : Option Nat) :
    bindForeachTarget f place = .ok (f.bindForeachTarget place) := by
  rw [bindForeachTarget, TokenStream.bindForeachTarget]
  cases place.bind f.withoutAmpersand with
  | none => rfl
  | some i =>
      refine ite_eq (fun _ => ?_) fun _ => ite_eq (fun _ => ?_) fun _ => rfl
      · cases f.next? i with
        | none => rfl
        | some n => exact ite_eq (fun _ => rfl) fun _ => rfl
      · cases (if f.kind i == .keyword .listWord then f.next? i else some i) with
        | none => rfl
        | some opening =>
            refine ite_eq (fun h => ?_) fun _ => rfl
            have hopens : f.opens opening := TokenStream.opens_of_isCharOf h (by decide)
            -- the pattern is looked through up to its closing bracket, a token of the file
            have hbounds := hf.skipGroup_bounds hopens
            rw [close_eq hf hopens, ok_bind, bindPattern_eq hf (Nat.le_of_lt hbounds.2), ok_bind]
            rfl

theorem bindForeachTargets_eq (i : Nat) : bindForeachTargets f i = .ok (f.bindForeachTargets i) := by
  rw [bindForeachTargets, TokenStream.bindForeachTargets, bindForeachTarget_eq hf, ok_bind]
  generalize f.bindForeachTarget (f.next? i) = first
  obtain ⟨commands, after⟩ := first
  cases after with
  | none => rfl
  | some arrow =>
      refine ite_eq (fun _ => ?_) fun _ => rfl
      rw [bindForeachTarget_eq hf]
      rfl

theorem bindForeach_eq (i : Nat) : bindForeach f i = .ok (f.bindForeach i) := by
  refine andThen_eq fun paren hparen => ?_
  have hopens := TokenStream.opens_of_isChar (f.eq_of_expect hparen).2 rfl
  rw [close_eq hf hopens, ok_bind]
  dsimp only
  cases f.searchOutside? (fun j => f.skipGroup paren ≤ j || f.kind j == .keyword .asWord) paren with
  | none => rfl
  | some stop =>
      refine ite_eq (fun _ => ?_) fun _ => rfl
      rw [bindForeachTargets_eq hf]
      rfl

/-! ### Functions -/

theorem functionStop_eq (close : Nat) : functionStop f close = .ok (f.functionStop? close) := by
  rw [functionStop, TokenStream.functionStop?]
  cases f.next? close with
  | none => rfl
  | some n => exact ite_eq (fun _ => afterReturnType_eq hf n) fun _ => rfl

theorem arrowStop_eq (close : Nat) : arrowStop f close = .ok (f.arrowStop? close) := by
  rw [arrowStop, search_eq hf fun j hj => TokenStream.opens_of_isCharOf hj (by decide)]
  rfl

/-- The parentheses around the parameters are a group. -/
theorem declareParameters_eq {paren : Nat} (h : f.opens paren) :
    declareParameters f paren = .ok (f.declareParameters paren) := by
  rw [declareParameters, arguments_eq hf h, ok_bind]
  refine forEach_eq (fun first => ?_) _
  rw [parameterFrom_eq hf, ok_bind]
  show _ = Except.ok (match (f.parameterFrom false false first).varIndex with | none => _ | some i => _)
  cases (f.parameterFrom false false first).varIndex <;> rfl

theorem handleCaptures_eq (keyword close : Nat) :
    handleCaptures f keyword close = .ok (f.handleCaptures keyword close) := by
  rw [handleCaptures, TokenStream.handleCaptures]
  cases f.useKeyword? keyword close with
  | none => rfl
  | some i =>
      refine andThen_eq fun paren hparen => ?_
      have hopens := TokenStream.opens_of_isChar (f.eq_of_expect hparen).2 rfl
      rw [arguments_eq hf hopens, ok_bind]
      refine andThen_eq fun _ _ => ?_
      rw [close_eq hf hopens]
      rfl

theorem handleBody_eq (keyword : Nat) (place : Option Nat) :
    handleBody f keyword place = .ok (f.handleBody keyword place) := by
  cases place with
  | none => rfl
  | some stop =>
      refine ite_eq (fun _ => rfl) fun _ => ite_eq (fun hbrace => ?_) fun _ => rfl
      rw [close_eq hf (TokenStream.opens_of_isChar hbrace rfl)]
      rfl

theorem handleFunction_eq (i : Nat) : handleFunction f i = .ok (f.handleFunction i) := by
  refine ite_eq (fun _ => rfl) fun _ => andThen_eq fun _ _ => andThen_eq fun paren hparen => ?_
  have hopens := TokenStream.opens_of_isChar (f.eq_of_expect hparen).2 rfl
  rw [declareParameters_eq hf hopens, ok_bind]
  refine andThen_eq fun _ _ => ?_
  rw [close_eq hf hopens, ok_bind, handleCaptures_eq hf, ok_bind]
  refine andThen_eq fun stop _ => ?_
  rw [functionStop_eq hf, ok_bind, handleBody_eq hf]

theorem handleArrowFunction_eq (i : Nat) : handleArrowFunction f i = .ok (f.handleArrowFunction i) := by
  refine andThen_eq fun paren hparen => ?_
  have hopens := TokenStream.opens_of_isChar (f.eq_of_expect hparen).2 rfl
  rw [close_eq hf hopens, ok_bind, arrowStop_eq hf, ok_bind]
  cases f.arrowStop? (f.skipGroup paren) with
  | none => rfl
  | some stop =>
      refine andThen_eq fun _ _ => ?_
      rw [declareParameters_eq hf hopens, ok_bind]
      exact andThen_eq fun _ _ => rfl

end Equal

/-! ### Steps -/

theorem handleVariable_eq (hfile : file.WellNested) (i : Nat) :
    handleVariable file i = .ok (file.handleVariable i) := by
  rw [handleVariable, afterIndexes_eq hfile]
  rfl

theorem handleLoop_eq (hfile : file.WellNested) {i : Nat} (hloop : TokenStream.isLoopKeyword (file.kind i)) :
    handleLoop file i = .ok (file.handleLoop i) := by
  rw [handleLoop, loopEnd_eq hfile hloop, ok_bind]
  exact andThen_eq fun _ _ => ite_eq (fun _ => bindForeach_eq hfile i) fun _ => rfl

/-- The parentheses of a call are a group. -/
theorem handleCall_eq (hctx : ctx.file.WellNested) (types : List (String × String)) (i : Nat) {paren : Nat}
    (h : ctx.file.opens paren) : handleCall ctx types i paren = .ok (ctx.handleCall types i paren) := by
  rw [handleCall, arguments_eq hctx h, ok_bind, ScanContext.handleCall]
  cases ctx.callSignature? types i with
  | none => rfl
  | some signature =>
      exact ite_eq (fun _ => rfl) fun _ => andThen_eq fun _ _ => passReferences_eq hctx signature _ _

theorem handleName_eq (hctx : ctx.file.WellNested) (types : List (String × String)) (i : Nat) :
    handleName ctx types i = .ok (ctx.handleName types i) := by
  rw [handleName, ScanContext.handleName]
  cases ctx.file.next? i with
  | none => rfl
  | some paren =>
      refine ite_eq (fun _ => rfl) fun hcall => andThen_eq fun _ _ => handleCall_eq hctx types i ?_
      have hparen : ctx.file.isChar paren '(' := by
        cases hparen : ctx.file.isChar paren '(' with
        | true => rfl
        | false => simp [hparen] at hcall
      exact TokenStream.opens_of_isChar hparen rfl

/-- A handler is chosen by the keyword, which tells what its look-ups rely on. -/
theorem handleKeyword_eq (hfile : file.WellNested) {word : Keyword} {i : Nat} (hkind : file.kind i = .keyword word) :
    handleKeyword file word i = .ok (file.handleKeyword word i) := by
  cases word with
  | forWord | foreachWord | whileWord | doWord =>
      have hloop : TokenStream.isLoopKeyword (file.kind i) := by
        rw [hkind]
        rfl
      rw [handleKeyword, handleLoop_eq hfile hloop]
      exact andThen_eq fun _ _ => rfl
  | functionWord => exact handleFunction_eq hfile i
  | fnWord => exact handleArrowFunction_eq hfile i
  | listWord =>
      rw [handleKeyword, handleList_eq hfile]
      exact andThen_eq fun _ _ => rfl
  | _ => rfl

/-- **No look-up fails at a step.** -/
theorem dispatch_eq (hctx : ctx.file.WellNested) (types : List (String × String)) (i : Nat) :
    dispatch ctx types i = .ok (ctx.dispatch types i) := by
  cases hkind : ctx.file.kind i with
  | var =>
      simp only [dispatch, ScanContext.dispatch, hkind, handleVariable_eq hctx]
      rfl
  | name =>
      simp only [dispatch, ScanContext.dispatch, hkind, handleName_eq hctx, ok_bind]
      exact andThen_eq fun _ _ => rfl
  | char c =>
      simp only [dispatch, ScanContext.dispatch, hkind]
      refine ite_eq (fun _ => ?_) fun _ => ite_eq (fun hbracket => ?_) fun _ => rfl
      · rw [handleDollar_eq hctx]
        rfl
      · have hchar : ctx.file.isChar i '[' := TokenStream.isChar_iff.mpr (hbracket ▸ hkind)
        rw [handleBracket_eq hctx hchar]
        rfl
  | keyword word =>
      simp only [dispatch, ScanContext.dispatch, hkind]
      exact handleKeyword_eq hctx hkind
  | _ =>
      simp only [dispatch, hkind]
      rfl

end Checked

end Unassigned
