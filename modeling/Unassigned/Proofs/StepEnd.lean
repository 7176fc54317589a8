import Unassigned.Proofs.PlanShape
import Unassigned.Proofs.Search

/-!
# `Proofs.StepEnd` — where a step of a scan ends

Most steps deal with one token. A step at a `catch`, a `global` or the header of a function goes on to a
later token, and what stands there is known: `StepEnds` lists the ways in which a step can succeed, with the
commands that it gives. `dispatch_ends` is the inversion lemma for steps that succeed, as `dispatch_shape`
is for all of them.
-/

namespace Unassigned

open Plan

/-- The step at `i` gives some commands and ends at a token. -/
inductive StepEnds (f : TokenStream) (i : Nat) : List Command → Nat → Prop where
  /-- The step deals with one token. -/
  | stay {cs : List Command} (h : ∀ c ∈ cs, c.isLocal) : StepEnds f i cs i
  /-- The step ends in the group of a `catch`. -/
  | caught {cs : List Command} {paren close last : Nat} (h : ∀ c ∈ cs, c.isLocal)
      (hparen : f.next? i = some paren) (hopen : f.kind paren = .char '(')
      (hgroup : f.closer? paren = some close) (hlast : last ≤ close) : StepEnds f i cs last
  /-- The step ends with a statement. -/
  | statement {cs : List Command} {last : Nat} (h : ∀ c ∈ cs, c.isLocal)
      (hlast : f.kind last = .char ';' ∨ f.kind last = .closeTag) : StepEnds f i cs last
  | body {cs : List Command} {last : Nat} (h : ∀ c ∈ cs, c.isHeader) (hlast : f.isChar last '\x7b') :
      StepEnds f i (.openFunction :: (cs ++ [.endAt (f.skipGroup last)])) last
  | noBody {cs : List Command} {last : Nat} (h : ∀ c ∈ cs, c.isHeader) (hlast : f.isChar last ';') :
      StepEnds f i (.openFunction :: (cs ++ [.discard])) last
  | arrow {cs : List Command} {last : Nat} (h : ∀ c ∈ cs, c.isHeader) (hlast : f.kind last = .doubleArrow) :
      StepEnds f i (.openArrow (f.expressionEnd last) :: cs) last

namespace TokenStream

variable (f : TokenStream)
variable {i last k : Nat}

/-! ## Functions -/

/-- The commands of a function with a complete header. -/
theorem commands_of_handleFunction (huse : ¬ f.prevIs i (.keyword .useWord))
    (h : (f.handleFunction i).result = .ok last) : ∃ cs, (∀ c ∈ cs, c.isHeader)
      ∧ ((f.isChar last '\x7b' ∧ (f.handleFunction i).commands = .openFunction :: (cs ++ [.endAt (f.skipGroup last)]))
        ∨ (f.isChar last ';' ∧ (f.handleFunction i).commands = .openFunction :: (cs ++ [.discard]))) := by
  unfold handleFunction at h ⊢
  rw [if_neg huse] at h ⊢
  obtain ⟨_, _, h⟩ := result_bind_eq_ok.mp h
  obtain ⟨paren, hparen, h⟩ := result_bind_eq_ok.mp h
  obtain ⟨_, hparams, h⟩ := result_bind_eq_ok.mp h
  obtain ⟨close, hclose, h⟩ := result_bind_eq_ok.mp h
  rw [bind_of_ok (result_emit _), bind_of_ok hparen, bind_of_ok hparams, bind_of_ok hclose,
    f.commands_expect]
  have hcaptures := (f.handleCaptures_keeps i (f.skipGroup paren)).all
  refine ⟨_, List.forall_mem_append.mpr ⟨(f.declareParameters_header paren).all, hcaptures⟩, ?_⟩
  have hstop := f.eq_of_handleBody h
  rw [hstop] at h ⊢
  simp only [commands_emit, List.nil_append, List.singleton_append, ← List.append_assoc]
  unfold handleBody at h ⊢
  dsimp only at h ⊢
  split at h
  · next hsemi =>
      rw [if_pos hsemi]
      exact .inr ⟨hsemi, rfl⟩
  · next hsemi =>
      rw [if_neg hsemi]
      split at h
      · next hbrace =>
          rw [if_pos hbrace]
          exact .inl ⟨hbrace, rfl⟩
      · cases h

theorem handleFunction_ends (h : (f.handleFunction i).result = .ok last) :
    StepEnds f i (f.handleFunction i).commands last := by
  by_cases huse : f.prevIs i (.keyword .useWord)
  · unfold handleFunction at h ⊢
    rw [if_pos huse] at h ⊢
    obtain rfl : i = last := by simpa using h
    exact .stay (by simp)
  · obtain ⟨cs, hheader, ⟨hbrace, hcommands⟩ | ⟨hsemi, hcommands⟩⟩ := f.commands_of_handleFunction huse h
    · rw [hcommands]
      exact .body hheader hbrace
    · rw [hcommands]
      exact .noBody hheader hsemi

/-- An arrow function that succeeds opens a scope, which ends with the expression behind its arrow, and binds its
    parameters there. -/
theorem commands_of_handleArrowFunction (h : (f.handleArrowFunction i).result = .ok last) :
    ∃ paren endIndex, f.afterFunctionKeyword? i = some paren ∧ (f.declareParameters paren).result = .ok ()
      ∧ (f.handleArrowFunction i).commands = .openArrow endIndex :: (f.declareParameters paren).commands
      ∧ endIndex = f.expressionEnd last ∧ f.kind last = .doubleArrow := by
  unfold handleArrowFunction at h ⊢
  obtain ⟨paren, hparen, h⟩ := result_bind_eq_ok.mp h
  rw [bind_of_ok hparen, f.commands_expect, List.nil_append]
  cases hstop : f.arrowStop? (f.skipGroup paren) with
  | none =>
      rw [hstop] at h
      cases h
  | some stop =>
      rw [hstop] at h
      obtain ⟨_, _, h⟩ := result_bind_eq_ok.mp h
      obtain ⟨_, hparams, h⟩ := result_bind_eq_ok.mp h
      obtain rfl : stop = last := by simpa using h
      refine ⟨paren, f.expressionEnd stop, (f.eq_of_expect hparen).1, hparams, ?_, rfl,
        by simpa using (Option.filter_eq_some_iff.mp hstop).2⟩
      dsimp only
      rw [bind_of_ok (result_emit _), bind_return_commands]
      rfl

theorem handleArrowFunction_ends (h : (f.handleArrowFunction i).result = .ok last) :
    StepEnds f i (f.handleArrowFunction i).commands last := by
  obtain ⟨paren, _, _, _, hcommands, rfl, harrow⟩ := f.commands_of_handleArrowFunction h
  rw [hcommands]
  exact .arrow (f.declareParameters_header paren).all harrow

/-! ## Statements -/

variable {f}

/-- A search that jumps over nothing ends at the first token that it looks for. -/
theorem search?_le {found : Nat → Bool} {j : Nat} (h : f.search? (fun _ => false) found i = some j) (hik : i < k)
    (hfound : found k) (hsig : (f.token k).isTrivial = false) : j ≤ k := by
  fun_induction search? f (fun _ => false) found i with
  | case1 => simp at h
  | case2 i m hnext hm =>
      obtain rfl : m = j := by simpa using h
      exact le_of_next? hnext hik hsig
  | case3 i m hnext hm ih =>
      have hmk := le_of_next? hnext hik hsig
      have hne : m ≠ k := by
        rintro rfl
        exact hm hfound
      simp only [dif_neg (show ¬ (false = true) by simp)] at ih
      exact ih h (by omega)

theorem skipKinds_le {isSkipped : Kind → Bool} {j : Nat} (h : f.skipKinds isSkipped i = some j) (hik : i ≤ k)
    (hfound : isSkipped (f.kind k) = false) (hsig : (f.token k).isTrivial = false) : j ≤ k := by
  unfold skipKinds at h
  split at h
  next hskipped =>
    have hne : i ≠ k := by
      rintro rfl
      rw [hfound] at hskipped
      simp at hskipped
    exact search?_le h (by omega) (by rw [hfound]; rfl) hsig
  next =>
    obtain rfl : i = j := by simpa using h
    exact hik

theorem le_of_handleCaught_of_closing {keyword : Nat} {place : Option Nat}
    (h : (f.handleCaught keyword place).result = .ok last) (hplace : ∀ j, place = some j → j ≤ k)
    (hkind : f.kind k = .char ')') (hsig : (f.token k).isTrivial = false) : last ≤ k := by
  unfold handleCaught at h
  split at h
  next => exact absurd (f.eq_of_expect h).1 (by simp)
  next after =>
    have hafter := hplace after rfl
    split at h
    next hvar =>
      obtain ⟨_, _, h⟩ := result_bind_eq_ok.mp h
      have hne : after ≠ k := by
        rintro rfl
        simp [hkind] at hvar
      exact le_of_next? (f.eq_of_expect h).1 (by omega) hsig
    next =>
      obtain rfl : after = last := by simpa using (f.eq_of_expect h).1
      exact hafter

theorem WellNested.closes_of_isChar (hf : f.WellNested) {c : Char} (hc : f.isChar i c)
    (hopens : (Kind.char c).closer?.isSome) : ∃ k, f.closer? i = some k := by
  refine hf.closes ?_
  rwa [isChar_iff.mp hc]

/-- A `catch` ends with its parenthesis, which closes its group. -/
theorem WellNested.handleCatch_group (hf : f.WellNested) (h : (f.handleCatch i).result = .ok last) :
    ∃ paren close, f.next? i = some paren ∧ f.kind paren = .char '(' ∧ f.closer? paren = some close
      ∧ last ≤ close := by
  obtain ⟨paren, hparen, h⟩ := result_bind_eq_ok.mp h
  obtain ⟨hnext, hchar⟩ := f.eq_of_expect hparen
  have hopen : f.kind paren = .char '(' := isChar_iff.mp hchar
  obtain ⟨close, hgroup⟩ := hf.closes_of_isChar hchar rfl
  refine ⟨paren, close, hnext, hopen, hgroup, ?_⟩
  have hkind : f.kind close = .char ')' := hf.kind_closer hgroup (by rw [hopen]; rfl)
  have hsig := isTrivial_of_closing (hf.sorts hgroup).2.1
  have hlt := (closer?_eq_some.mp hgroup).2
  split at h
  next => simp at h
  next first hfirst =>
    have hle := le_of_next? hfirst hlt hsig
    split at h
    next =>
      exact le_of_handleCaught_of_closing h
        (fun j hj => skipKinds_le hj hle (by rw [hkind]; rfl) hsig) hkind hsig
    next => simp at h

theorem handleGlobalItems_ends {keyword : Nat} (h : (f.handleGlobalItems keyword i).result = .ok last) :
    f.kind last = .char ';' ∨ f.kind last = .closeTag := by
  fun_induction handleGlobalItems f keyword i with
  | case1 => simp at h
  | case2 i holder hholder ih =>
      obtain ⟨_, _, h⟩ := result_bind_eq_ok.mp h
      split at h
      next => simp at h
      next after hafter =>
        split at h
        next =>
          split at h
          next => simp at h
          next next hnext => exact ih after hafter next hnext h
        next =>
          split at h
          next hend =>
            obtain rfl : after = last := by simpa using h
            simpa [isChar, Token.isChar, kind] using hend
          next => simp at h

theorem handleGlobal_ends (h : (f.handleGlobal i).result = .ok last) :
    f.kind last = .char ';' ∨ f.kind last = .closeTag := by
  unfold handleGlobal at h
  split at h
  next => simp at h
  next first hfirst => exact handleGlobalItems_ends h

/-! ## The end of a header -/

theorem functionStop?_of_next {close n : Nat} (hn : f.next? close = some n) :
    f.functionStop? close = if f.isChar n ':' then f.afterReturnType? n else some n := by
  unfold functionStop?
  rw [hn]

/-- The end of a header, found without looking into its parts. -/
theorem headerEnd?_eq_some {paren stop : Nat} (h : f.headerEnd? paren = some stop) :
    f.isCharOf stop ['\x7b', ';'] ∧ ∃ n, f.next? (f.skipGroup paren) = some n
      ∧ ((f.kind n = .keyword .useWord ∧ ∃ captures, f.next? n = some captures ∧ f.isChar captures '('
            ∧ f.functionStop? (f.skipGroup captures) = some stop)
        ∨ (f.kind n ≠ .keyword .useWord ∧ f.functionStop? (f.skipGroup paren) = some stop)) := by
  have hchar : ∀ {k}, (if f.isCharOf k ['\x7b', ';'] then some k else none) = some stop →
      f.isCharOf stop ['\x7b', ';'] ∧ k = stop := by
    intro k hk
    split at hk
    · next hchar =>
        obtain rfl := Option.some.inj hk
        exact ⟨hchar, rfl⟩
    · cases hk
  -- what follows the parameters or the captures
  have hlast : ∀ {n close}, f.next? close = some n → (do
      let n ← if f.isChar n ':' then f.afterReturnType? n else some n
      if f.isCharOf n ['\x7b', ';'] then some n else none) = some stop →
      f.isCharOf stop ['\x7b', ';'] ∧ f.functionStop? close = some stop := by
    intro n close hn h
    rw [functionStop?_of_next hn]
    split at h
    · next hcolon =>
        obtain ⟨k, hk, h⟩ := Option.bind_eq_some_iff.mp h
        obtain ⟨hstop, rfl⟩ := hchar h
        exact ⟨hstop, by rw [if_pos hcolon, hk]⟩
    · next hcolon =>
        obtain ⟨hstop, rfl⟩ := hchar h
        exact ⟨hstop, if_neg hcolon⟩
  obtain ⟨n, hn, h⟩ := Option.bind_eq_some_iff.mp h
  dsimp only at h
  split at h
  · next huse =>
      obtain ⟨captures, hcaptures, h⟩ := Option.bind_eq_some_iff.mp h
      split at h
      · next hopen =>
          obtain ⟨m, hm, h⟩ := Option.bind_eq_some_iff.mp h
          obtain ⟨hstop, hend⟩ := hlast hm h
          exact ⟨hstop, n, hn, .inl ⟨beq_iff_eq.mp huse, captures, hcaptures, hopen, hend⟩⟩
      · cases h
  · next huse =>
      obtain ⟨hstop, hend⟩ := hlast hn h
      exact ⟨hstop, n, hn, .inr ⟨fun hkind => huse (beq_iff_eq.mpr hkind), hend⟩⟩

end TokenStream

/-! ## The step at a token -/

namespace ScanContext

variable {ctx : ScanContext} {types : List (String × String)} {i last : Nat}

theorem StepPlan.ends (hf : ctx.file.WellNested) {plan : Plan Nat} (hplan : ctx.StepPlan types i plan)
    (h : plan.result = .ok last) : StepEnds ctx.file.toTokenStream i plan.commands last := by
  cases hplan with
  | ordinary hplan hlast =>
      have hlocal : ∀ c ∈ plan.commands, c.isLocal := fun c hc => Command.isLocal_of_isOrdinary (hplan.all c hc)
      rcases hlast with rfl | hlast
      · obtain ⟨paren, close, hparen, hopen, hgroup, hle⟩ := hf.handleCatch_group h
        exact .caught hlocal hparen hopen hgroup hle
      · rw [hlast last h]
        exact .stay hlocal
  | switch hcs =>
      obtain rfl : i = last := Except.ok.inj h
      exact .stay fun c hc => Command.isLocal_of_isUsual (hcs c hc)
  | name =>
      obtain ⟨_, _, hpure⟩ := result_bind_eq_ok.mp h
      obtain rfl : i = last := Except.ok.inj hpure
      exact .stay ((ctx.handleName_keeps types i).bind_return i).all
  | global => exact .statement (ctx.file.handleGlobal_keeps i).all (TokenStream.handleGlobal_ends h)
  | function => exact ctx.file.handleFunction_ends h
  | arrow => exact ctx.file.handleArrowFunction_ends h

variable (ctx)

/-- **Where a step can end** that succeeds. -/
theorem dispatch_ends (hf : ctx.file.WellNested) (h : (ctx.dispatch types i).result = .ok last) :
    StepEnds ctx.file.toTokenStream i (ctx.dispatch types i).commands last :=
  (ctx.stepPlan types i).ends hf h

end ScanContext

end Unassigned
