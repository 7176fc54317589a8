import Unassigned.Lint.Linter
import Unassigned.Proofs.FunctionHeader
import Unassigned.Proofs.Knowledge

/-!
# `Proofs.FileScopeSwitch` — reports about a file scope that is not checked

The settings can say that reads in the file scope are not checked. Reads ask the settings, but three constructs
check a variable on their own, stated here on the text as `ChecksAt`: an argument that a known function takes by
reference and does not set, the holder of the name in `global $$name`, and a variable that a closure captures by
value. `dispatch_guarded` says that everything else a step does is **guarded**.

So with the check switched off a read of an unknown variable is reported against the file scope for these three
constructs, as possibly undefined, and for nothing else (`Linter.fileScope_reports`).
-/

namespace Unassigned

/-- The finding is that an unknown variable is read. -/
def Finding.isUnknownRead : Finding → Bool
  | .undefined | .possiblyUndefined => true
  | _ => false

theorem Finding.isMissing_of_isUnknownRead {finding : Finding} (h : finding.isUnknownRead) : finding.isMissing := by
  cases finding with
  | undefined | possiblyUndefined => rfl
  | _ => cases h

/-! ## Commands of plans -/

namespace Plan

variable {α β : Type} {c : Command}

theorem mem_commands_bind {plan : Plan α} {next : α → Plan β} : c ∈ (plan >>= next).commands
    ↔ c ∈ plan.commands ∨ ∃ a, plan.result = .ok a ∧ c ∈ (next a).commands := by
  cases h : plan.result with
  | ok a => simp [bind_of_ok h]
  | error e => simp [bind_of_error h]

theorem exists_of_mem_forM {act : α → Plan Unit} {xs : List α} (h : c ∈ (xs.forM act).commands) :
    ∃ x ∈ xs, c ∈ (act x).commands := by
  induction xs with
  | nil => cases h
  | cons x xs ih =>
      rcases mem_commands_bind.mp h with hx | ⟨_, _, hxs⟩
      · exact ⟨x, List.mem_cons_self .., hx⟩
      · obtain ⟨y, hy, hmem⟩ := ih hxs
        exact ⟨y, List.mem_cons_of_mem x hy, hmem⟩

theorem mem_forM_of_ok {act : α → Plan Unit} {xs : List α} (hok : (xs.forM act).result = .ok ()) {x : α}
    (hx : x ∈ xs) (hc : c ∈ (act x).commands) : c ∈ (xs.forM act).commands := by
  induction xs with
  | nil => cases hx
  | cons y xs ih =>
      obtain ⟨_, hy, hxs⟩ := result_bind_eq_ok.mp hok
      refine mem_commands_bind.mpr ?_
      rcases List.mem_cons.mp hx with rfl | hx
      · exact .inl hc
      · exact .inr ⟨_, hy, ih hxs hx⟩

end Plan

open Plan

/-! ## Constructs that check a variable -/

/-- The positions of a signature are looked at in order, up to the first that no argument has. One of them is that
    of the argument which starts at a place. -/
inductive ReferenceArgument (positional : List Nat) : List Int → Nat → Prop where
  | here {position : Int} {rest : List Int} {first : Nat} (hlt : position < positional.length)
      (hfirst : elementAt? positional position = some first) : ReferenceArgument positional (position :: rest) first
  | later {position : Int} {rest : List Int} {other first : Nat} (hlt : position < positional.length)
      (hother : elementAt? positional position = some other) (h : ReferenceArgument positional rest first) :
      ReferenceArgument positional (position :: rest) first

theorem ReferenceArgument.ne_nil {positional : List Nat} {positions : List Int} {first : Nat}
    (h : ReferenceArgument positional positions first) : positions ≠ [] := by
  cases h <;> exact List.cons_ne_nil _ _

namespace ScanContext

/-- A construct at `i` that checks a variable whatever the settings say, with its command; `types` gives the
    annotated classes of the variables in the current scope. -/
inductive ChecksAt (ctx : ScanContext) (types : List (String × String)) (i : Nat) : Command → Prop where
  /-- A variable that a known function takes by reference and does not set. -/
  | argument {paren first q after : Nat} {signature : Signature} (hcall : ctx.CallsAt types i paren signature)
      (hkeeps : signature.doesNotInitialize)
      (hfirst : ReferenceArgument (ctx.file.positionalArguments paren) signature.refs first)
      (hq : ctx.file.withoutAmpersand first = some q) (hvar : ctx.file.kind q = .var)
      (hafter : ctx.file.afterIndexes q = (some after, false)) (hends : ctx.file.isCharOf after [',', ')']) :
      ChecksAt ctx types i (.check (ctx.file.token q))
  /-- `global $$name`. -/
  | holder {first p q : Nat} (hglobal : ctx.file.kind i = .keyword .globalWord)
      (hfirst : ctx.file.next? i = some first) (hitem : ctx.file.GlobalItem first p)
      (hdollar : ctx.file.kind p = .char '$') (hq : ctx.file.next? p = some q) (hvar : ctx.file.kind q = .var) :
      ChecksAt ctx types i (.check (ctx.file.token q))
  /-- A variable that a closure captures by value. -/
  | capture {paren word captures q : Nat} (hfunction : ctx.file.kind i = .keyword .functionWord)
      (huse : ¬ ctx.file.prevIs i (.keyword .useWord)) (hparen : ctx.file.functionParen? i = some paren)
      (hword : ctx.file.useKeyword? i (ctx.file.skipGroup paren) = some word)
      (hcaptures : ctx.file.next? word = some captures)
      (hq : q ∈ ctx.file.arguments captures) (hvar : ctx.file.kind q = .var) :
      ChecksAt ctx types i (.checkOuter (ctx.file.token q))

end ScanContext

namespace TokenStream

variable {f : TokenStream} {c : Command}
variable {first paren i : Nat}

/-! ## Arguments -/

theorem mem_passReferences {signature : Signature} {positional : List Nat} {positions : List Int} :
    c ∈ (f.passReferences signature positional positions).commands
      ↔ ∃ first, ReferenceArgument positional positions first ∧ c ∈ f.passByReference signature first := by
  induction positions with
  | nil =>
      constructor
      · rintro ⟨⟩
      · rintro ⟨_, hfirst, _⟩
        cases hfirst
  | cons position rest ih =>
      unfold passReferences
      split
      · next hle =>
          constructor
          · rintro ⟨⟩
          · rintro ⟨_, hfirst, _⟩
            cases hfirst with
            | here hlt | later hlt => exact absurd hle (by omega)
      · next hlt =>
          split
          · next hnone =>
              constructor
              · rintro ⟨⟩
              · rintro ⟨_, hfirst, _⟩
                cases hfirst with
                | here _ h | later _ h => cases hnone.symm.trans h
          · next found hfound =>
              rw [mem_commands_bind]
              constructor
              · rintro (hmem | ⟨_, _, hmem⟩)
                · exact ⟨found, .here (by omega) hfound, hmem⟩
                · obtain ⟨first, hfirst, hmem⟩ := ih.mp hmem
                  exact ⟨first, .later (by omega) hfound hfirst, hmem⟩
              · rintro ⟨first, hfirst, hmem⟩
                cases hfirst with
                | here _ h =>
                    obtain rfl := Option.some.inj (hfound.symm.trans h)
                    exact .inl hmem
                | later _ _ h => exact .inr ⟨(), rfl, ih.mpr ⟨first, h, hmem⟩⟩

theorem check_mem_passByReference {signature : Signature} {q after : Nat} (hkeeps : signature.doesNotInitialize)
    (hq : f.withoutAmpersand first = some q) (hvar : f.kind q = .var)
    (hafter : f.afterIndexes q = (some after, false)) (hends : f.isCharOf after [',', ')']) :
    .check (f.token q) ∈ f.passByReference signature first := by
  simp [passByReference, hq, hvar, hafter, hends, hkeeps]

/-! ## Functions -/

theorem guarded_of_isParameter (h : c.isParameter) : c.isGuarded := by
  cases c with
  | bindParameter => rfl
  | _ => cases h

theorem withoutAmpersand_of_var (h : f.kind first = .var) : f.withoutAmpersand first = some first := by
  have hamp : ¬ f.isChar first '&' := by
    rw [isChar_iff, h]
    nofun
  exact if_neg hamp

/-- A capture checks a variable only if it is by value. -/
theorem captureVariable_guarded (h : c ∈ (f.captureVariable paren first).commands) :
    c.isGuarded ∨ f.kind first = .var ∧ c = .checkOuter (f.token first) := by
  unfold captureVariable at h
  dsimp only at h
  split at h
  · cases h
  · next q hq =>
      split at h
      · next hvar =>
          have hmem : c = (if f.isChar first '&' then .declareOuter (f.token q) else .checkOuter (f.token q))
              ∨ c = .assign (f.token q) (.captured (f.isChar first '&')) ∨ c = .consume q := by
            simpa using h
          rcases hmem with rfl | rfl | rfl
          · split
            · exact .inl rfl
            · next hamp =>
                obtain rfl : first = q := by simpa [withoutAmpersand, hamp] using hq
                exact .inr ⟨eq_of_beq hvar, rfl⟩
          · exact .inl rfl
          · exact .inl rfl
      · cases h

theorem checkOuter_mem_captureVariable (h : f.kind first = .var) :
    .checkOuter (f.token first) ∈ (f.captureVariable paren first).commands := by
  have hamp : f.isChar first '&' = false := by
    rw [← Bool.not_eq_true, isChar_iff, h]
    nofun
  simp [captureVariable, withoutAmpersand_of_var h, h, hamp]

theorem handleCaptures_guarded {keyword close : Nat} (h : c ∈ (f.handleCaptures keyword close).commands) :
    c.isGuarded ∨ ∃ word captures q, f.useKeyword? keyword close = some word ∧ f.next? word = some captures
      ∧ f.isChar captures '(' ∧ q ∈ f.arguments captures ∧ f.kind q = .var ∧ c = .checkOuter (f.token q) := by
  unfold handleCaptures at h
  split at h
  · cases h
  · next word hword =>
      rcases mem_commands_bind.mp h with h | ⟨captures, hcaptures, h⟩
      · rw [f.commands_expect] at h
        cases h
      · rcases mem_commands_bind.mp h with h | ⟨_, _, h⟩
        · obtain ⟨q, hq, h⟩ := exists_of_mem_forM h
          rcases captureVariable_guarded h with hguarded | ⟨hvar, hc⟩
          · exact .inl hguarded
          · obtain ⟨hnext, hopens⟩ := f.eq_of_expect hcaptures
            exact .inr ⟨word, captures, q, hword, hnext, hopens, hq, hvar, hc⟩
        · cases h

/-- The header of a function that succeeds is complete, so all its captures are bound. -/
theorem checkOuter_mem_handleFunction {last word captures q : Nat} (h : (f.handleFunction i).result = .ok last)
    (huse : ¬ f.prevIs i (.keyword .useWord)) (hparen : f.functionParen? i = some paren)
    (hword : f.useKeyword? i (f.skipGroup paren) = some word) (hcaptures : f.next? word = some captures)
    (hq : q ∈ f.arguments captures) (hvar : f.kind q = .var) :
    .checkOuter (f.token q) ∈ (f.handleFunction i).commands := by
  unfold handleFunction at h ⊢
  rw [if_neg huse] at h ⊢
  obtain ⟨_, hopen, h⟩ := result_bind_eq_ok.mp h
  obtain ⟨paren', hparen', h⟩ := result_bind_eq_ok.mp h
  obtain ⟨_, hparams, h⟩ := result_bind_eq_ok.mp h
  obtain ⟨close, hclose, _⟩ := result_bind_eq_ok.mp h
  obtain rfl := Option.some.inj (hparen.symm.trans (f.eq_of_expect hparen').1)
  refine mem_commands_bind.mpr (.inr ⟨_, hopen, mem_commands_bind.mpr (.inr ⟨_, hparen', ?_⟩)⟩)
  refine mem_commands_bind.mpr (.inr ⟨_, hparams, mem_commands_bind.mpr (.inl ?_)⟩)
  unfold handleCaptures at hclose ⊢
  rw [hword] at hclose ⊢
  obtain ⟨captures', hcaptures', hclose⟩ := result_bind_eq_ok.mp hclose
  obtain ⟨_, hbound, _⟩ := result_bind_eq_ok.mp hclose
  obtain rfl := Option.some.inj (hcaptures.symm.trans (f.eq_of_expect hcaptures').1)
  refine mem_commands_bind.mpr (.inr ⟨_, hcaptures', mem_commands_bind.mpr (.inl ?_)⟩)
  exact mem_forM_of_ok hbound hq (checkOuter_mem_captureVariable hvar)

theorem handleBody_guarded {keyword : Nat} {place : Option Nat} (h : c ∈ (f.handleBody keyword place).commands) :
    c.isGuarded := by
  unfold handleBody at h
  split at h
  · cases h
  · split at h
    · obtain rfl := List.mem_singleton.mp h
      rfl
    · split at h
      · obtain rfl := List.mem_singleton.mp h
        rfl
      · cases h

/-- A function checks the variables that it captures by value, and nothing else. -/
theorem checkOuter_of_mem_handleFunction (h : c ∈ (f.handleFunction i).commands) : c.isGuarded
    ∨ ¬ f.prevIs i (.keyword .useWord) ∧ ∃ paren word captures q, f.functionParen? i = some paren
      ∧ f.useKeyword? i (f.skipGroup paren) = some word ∧ f.next? word = some captures ∧ f.isChar captures '('
      ∧ q ∈ f.arguments captures ∧ f.kind q = .var ∧ c = .checkOuter (f.token q) := by
  unfold handleFunction at h
  split at h
  · cases h
  · next huse =>
      rcases mem_commands_bind.mp h with h | ⟨_, _, h⟩
      · obtain rfl := List.mem_singleton.mp h
        exact .inl rfl
      rcases mem_commands_bind.mp h with h | ⟨paren, hparen, h⟩
      · rw [f.commands_expect] at h
        cases h
      rcases mem_commands_bind.mp h with h | ⟨_, _, h⟩
      · exact .inl (guarded_of_isParameter ((f.declareParameters_keeps paren).all c h))
      rcases mem_commands_bind.mp h with h | ⟨_, _, h⟩
      · exact (handleCaptures_guarded h).imp_right fun ⟨word, captures, q, hword, hfacts⟩ =>
          ⟨huse, paren, word, captures, q, (f.eq_of_expect hparen).1, hword, hfacts⟩
      · exact .inl (handleBody_guarded h)

theorem handleArrowFunction_guarded (h : c ∈ (f.handleArrowFunction i).commands) : c.isGuarded := by
  rcases f.commands_handleArrowFunction i with hnone | ⟨e, cs, hcs, hparameters⟩
  · rw [hnone] at h
    cases h
  · rw [hcs] at h
    rcases List.mem_cons.mp h with rfl | h
    · rfl
    · exact guarded_of_isParameter (hparameters c h)

end TokenStream

namespace ScanContext

variable {ctx : ScanContext} {types : List (String × String)} {i : Nat} {c : Command}

theorem handleFunction_guarded (hfunction : ctx.file.kind i = .keyword .functionWord)
    (h : c ∈ (ctx.file.handleFunction i).commands) : c.isGuarded ∨ ctx.ChecksAt types i c := by
  rcases TokenStream.checkOuter_of_mem_handleFunction h with
    hguarded | ⟨huse, paren, word, captures, q, hparen, hword, hcaptures, _, hq, hvar, rfl⟩
  · exact .inl hguarded
  · exact .inr (.capture hfunction huse hparen hword hcaptures hq hvar)

/-- The `global` statement checks the holders of names, and nothing else. -/
theorem handleGlobal_guarded (hglobal : ctx.file.kind i = .keyword .globalWord)
    (h : c ∈ (ctx.file.handleGlobal i).commands) : c.isGuarded ∨ ctx.ChecksAt types i c := by
  obtain ⟨first, p, holder, hfirst, hitem, hholder, h⟩ := TokenStream.mem_handleGlobal.mp h
  rcases ctx.file.mem_globalItem h with husual | ⟨hvar, rfl⟩
  · exact .inl (Command.isGuarded_of_isUsual husual)
  · rcases TokenStream.globalVariable?_eq_some.mp hholder with ⟨hkind, _⟩ | ⟨hdollar, hq, hkind⟩
    · exact absurd hkind hvar
    · exact .inr (.holder hglobal hfirst hitem hdollar hq hkind)

/-! ## Calls -/

/-- What a call does about its arguments. -/
theorem mem_handleCall {paren : Nat} (h : c ∈ (ctx.handleCall types i paren).commands) :
    (∃ first ∈ ctx.file.positionalArguments paren ++ ctx.file.namedArguments paren, c ∈ ctx.file.passToUnknown first)
      ∨ ∃ signature first, ctx.callSignature? types i = some signature
        ∧ ReferenceArgument (ctx.file.positionalArguments paren) signature.refs first
        ∧ c ∈ ctx.file.passByReference signature first := by
  unfold handleCall at h
  dsimp only at h
  split at h
  · exact .inl (List.mem_flatMap.mp h)
  · next signature hsignature =>
      split at h
      · cases h
      · rcases mem_commands_bind.mp h with h | ⟨_, _, h⟩
        · obtain ⟨first, hfirst, h⟩ := List.mem_flatMap.mp h
          exact .inl ⟨first, List.mem_append_right _ hfirst, h⟩
        · obtain ⟨first, hfirst, h⟩ := TokenStream.mem_passReferences.mp h
          exact .inr ⟨signature, first, hsignature, hfirst, h⟩

/-- What is done at a name. -/
theorem mem_handleName (h : c ∈ (ctx.handleName types i).commands) : c.isTrigger
    ∨ ∃ paren, ctx.OpensCall i paren ∧ c ∈ (ctx.handleCall types i paren).commands := by
  rcases ctx.handleName_cases types i with hpure | ⟨paren, hcall⟩
  · rw [hpure] at h
    cases h
  · rw [hcall.handleName_eq] at h
    rcases mem_commands_bind.mp h with h | ⟨_, _, h⟩
    · exact .inl (ctx.extractSwitch_trigger i c h)
    · exact .inr ⟨paren, hcall, h⟩

theorem handleName_guarded (hname : ctx.file.kind i = .name) (h : c ∈ (ctx.handleName types i).commands) :
    c.isGuarded ∨ ctx.ChecksAt types i c := by
  rcases mem_handleName h with htrigger | ⟨paren, ⟨hparen, hopens, hcall⟩, h⟩
  · exact .inl (Command.isGuarded_of_isUsual (by simp [Command.isUsual, htrigger]))
  · rcases mem_handleCall h with ⟨first, _, h⟩ | ⟨signature, first, hsignature, hfirst, h⟩
    · obtain ⟨_, _, _, _, rfl | rfl⟩ := ctx.file.mem_passToUnknown.mp h <;> exact .inl rfl
    · rcases ctx.file.passByReference_cases h with hordinary | ⟨hkeeps, q, after, hq, hvar, hafter, hends, rfl⟩
      · exact .inl (Command.isGuarded_of_isUsual (Command.isUsual_of_isOrdinary hordinary))
      · exact .inr (.argument ⟨hname, hparen, hopens, hcall, hsignature⟩ hkeeps hfirst hq hvar hafter hends)

/-- **What a step does is guarded**, but for the constructs that check a variable on their own. -/
theorem dispatch_guarded (h : c ∈ (ctx.dispatch types i).commands) : c.isGuarded ∨ ctx.ChecksAt types i c := by
  have hplan := ctx.stepPlan types i
  generalize ctx.dispatch types i = plan at hplan h
  cases hplan with
  | ordinary hplan => exact .inl (Command.isGuarded_of_isUsual (Command.isUsual_of_isOrdinary (hplan.all c h)))
  | switch hcs => exact .inl (Command.isGuarded_of_isUsual (hcs c h))
  | name hname => exact handleName_guarded hname (by rwa [bind_return_commands] at h)
  | global hglobal => exact handleGlobal_guarded hglobal h
  | function hfunction => exact handleFunction_guarded hfunction h
  | arrow => exact .inl (TokenStream.handleArrowFunction_guarded h)

/-- The commands of a call of a known function include those for its by-reference arguments. -/
theorem CallsAt.mem_handleName {paren first : Nat} {signature : Signature} (hcall : ctx.CallsAt types i paren signature)
    (hfirst : ReferenceArgument (ctx.file.positionalArguments paren) signature.refs first)
    (h : c ∈ ctx.file.passByReference signature first) : c ∈ (ctx.handleName types i).commands := by
  have hrefs : ¬ signature.refs.isEmpty := by simpa using hfirst.ne_nil
  rw [hcall.opensCall.handleName_eq, mem_commands_bind]
  refine .inr ⟨(), rfl, ?_⟩
  unfold handleCall
  dsimp only
  rw [hcall.known]
  dsimp only
  rw [if_neg hrefs, mem_commands_bind]
  exact .inr ⟨(), rfl, TokenStream.mem_passReferences.mpr ⟨first, hfirst, h⟩⟩

/-- **A step checks the variable of each such construct**, unless it fails. -/
theorem ChecksAt.mem_dispatch {last : Nat} (h : ctx.ChecksAt types i c)
    (hlast : (ctx.dispatch types i).result = .ok last) : c ∈ (ctx.dispatch types i).commands := by
  cases h with
  | argument hcall hkeeps hfirst hq hvar hafter hends =>
      simp only [dispatch, hcall.name, bind_return_commands]
      exact hcall.mem_handleName hfirst (TokenStream.check_mem_passByReference hkeeps hq hvar hafter hends)
  | @holder first p q hglobal hfirst hitem hdollar hq hvar =>
      rw [ctx.dispatch_of_keyword hglobal]
      have hholder := TokenStream.globalVariable?_eq_some.mpr (.inr ⟨hdollar, hq, hvar⟩)
      refine TokenStream.mem_handleGlobal.mpr ⟨first, p, q, hfirst, hitem, hholder, ?_⟩
      simp [TokenStream.globalItem, hdollar]
  | capture hfunction huse hparen hword hcaptures hq hvar =>
      rw [ctx.dispatch_of_keyword hfunction] at hlast ⊢
      exact TokenStream.checkOuter_mem_handleFunction hlast huse hparen hword hcaptures hq hvar

/-! ## One command against the file scope -/

variable {st : ScanState}
variable {k : Nat} {d : Defect}

/-- **A guarded command that finds the read of an unknown variable is a read of it**, where reads are checked: a plain
    one of a token that was not dealt with, or one by a function. -/
theorem reads_of_found (hc : c.isGuarded) (hfound : ctx.found? st c = some d) (hd : d.finding.isUnknownRead) :
    ctx.skipsReads st = false
      ∧ ((c = .read d.token ∧ d.token.index ∉ st.consumed) ∨ c = .readLeniently d.token) := by
  have hcreation : ∀ {finding : Finding}, finding.isCreation → finding.isUnknownRead = false := by
    intro finding h
    cases finding with
    | undefined | possiblyUndefined => cases h
    | _ => rfl
  cases c with
  | applySwitch i =>
      obtain ⟨trigger, _, rfl⟩ := Option.map_eq_some_iff.mp hfound
      cases hd
  | read token =>
      dsimp only [found?] at hfound
      split at hfound
      · cases hfound
      · next hskips =>
          obtain ⟨_, rfl⟩ := eq_of_missing hfound
          obtain ⟨hnot, hchecked⟩ : d.token.index ∉ st.consumed ∧ ctx.skipsReads st = false := by simpa using hskips
          exact ⟨hchecked, .inl ⟨rfl, hnot⟩⟩
  | readLeniently token =>
      dsimp only [found?] at hfound
      split at hfound
      · cases hfound
      · next hskips =>
          obtain ⟨_, rfl⟩ := eq_of_missing hfound
          exact ⟨Bool.eq_false_iff.mpr hskips, .inr rfl⟩
  | autovivify token finding =>
      dsimp only [found?] at hfound
      split at hfound
      · cases hfound
      · cases hfound
        cases (hcreation hc).symm.trans hd
  | update token finding isAlone =>
      dsimp only [found?] at hfound
      split at hfound
      · split at hfound
        · cases hfound
          cases hd
        · cases hfound
      · cases hfound
        cases (hcreation hc).symm.trans hd
  | standAlone token | rejectReference token =>
      cases hfound
      cases hd
  | check token | checkOuter token => cases hc
  | _ => cases hfound

/-! ## Through the moments -/

/-- The file scope is relaxed whenever a command is performed. -/
theorem modeAt_of_actsAt (hacts : ctx.ActsAt k c 0) : (ctx.stateAt k).scopes.modeAt c.reach = .relaxed := by
  have hopen : ctx.StaysOpen 0 0 k := by
    intro j _ hjk
    obtain ⟨hlt, _⟩ := List.getElem?_eq_some_iff.mp hacts.1
    have := ctx.reach_lt_depth (List.getElem?_eq_getElem (Nat.lt_of_le_of_lt hjk hlt))
    omega
  have hstart : ctx.frameAt 0 0 = some { mode := .relaxed } := by
    rw [frameAt, stateAt_zero]
    rfl
  obtain ⟨file, hfile, hevolves⟩ := ctx.evolves_of_staysOpen (Nat.zero_le k) hopen hstart
  have hlevel : (ctx.stateAt k).scopes.frame? c.reach = some file := by
    rw [ScopeStack.frame?_eq_atHeight hacts.reach_lt, ← hacts.height]
    exact hfile
  simp [ScopeStack.modeAt, hlevel, hevolves.relaxed rfl]

/-- **What a check reports against the file scope.** -/
theorem reportsAt_check_iff {token : Token} (hc : c = .check token ∨ c = .checkOuter token) (hacts : ctx.ActsAt k c 0) :
    ctx.ReportsAt k d
      ↔ d = ⟨token, .warning, .possiblyUndefined⟩ ∧ Severity.warning.atLeast ctx.level
        ∧ ¬ ctx.Predefined 0 token.text ∧ ¬ ctx.KnownAt k 0 token.text := by
  have hfound : ctx.found? (ctx.stateAt k) c = ctx.missing? token false c.reach (ctx.stateAt k) := by
    rcases hc with rfl | rfl <;> rfl
  have hrelaxed : ((ctx.stateAt k).scopes.modeAt c.reach == .relaxed || false) = true := by
    rw [modeAt_of_actsAt hacts]
    rfl
  have hknown : ctx.isKnown (ctx.stateAt k) c.reach token.text
      ↔ ctx.Predefined 0 token.text ∨ ctx.KnownAt k 0 token.text := by
    rw [isKnown_iff hacts.reach_lt, ← hacts.height, KnownAt]
  rw [ctx.reportsAt_iff hacts.1, hfound, missing?, if_pos hrelaxed, ← not_or, ← hknown]
  split
  · next h => simp [h]
  · next h =>
      rw [Option.some.injEq, eq_comm, and_iff_left h]
      exact and_congr_right fun hd => by rw [hd]

/-- A command is guarded, or it comes from one of the constructs. -/
theorem guarded_or_checksAt (hk : ctx.history[k]? = some c) : c.isGuarded
    ∨ ∃ t n i m, ctx.InStep k c t n i m ∧ ctx.ChecksAt (ctx.arrive i (ctx.stateAt n)).currentTypes i c := by
  obtain ⟨t, n, i, m, hin⟩ := exists_inStep hk
  have hmem := List.mem_of_getElem? hin.command
  rw [ctx.commands_plan] at hmem
  rcases List.mem_append.mp hmem with harrival | hdispatch
  · -- what happens on arrival is guarded
    simp only [arrival, List.mem_cons, List.not_mem_nil, or_false] at harrival
    rcases harrival with rfl | rfl | rfl <;> exact .inl rfl
  · exact (dispatch_guarded hdispatch).imp_right fun hchecks => ⟨t, n, i, m, hin, hchecks⟩

/-- A read that is reported against the file scope with the check switched off comes from one of the constructs. -/
theorem checksAt_of_reportsAt (hoff : ctx.checkFileScope = false) (hacts : ctx.ActsAt k c 0)
    (hreport : ctx.ReportsAt k d) (hread : d.finding.isUnknownRead) :
    ∃ t n i m, ctx.InStep k c t n i m ∧ ctx.ChecksAt (ctx.arrive i (ctx.stateAt n)).currentTypes i c := by
  refine (guarded_or_checksAt hacts.1).resolve_left fun hguarded => ?_
  have hfile : c.reach + 1 = (ctx.stateAt k).scopes.depth := by
    have := hacts.2
    omega
  obtain ⟨hchecked, hc⟩ := reads_of_found hguarded ((ctx.reportsAt_iff hacts.1).mp hreport).1 hread
  have hreach : c.reach = 0 := by rcases hc with ⟨rfl, _⟩ | rfl <;> rfl
  simp [skipsReads, hoff, ← hfile, hreach] at hchecked

/-- The variable that a construct checks is the one of its command. -/
theorem ChecksAt.eq_check (h : ctx.ChecksAt types i c) :
    ∃ q, ctx.file.kind q = .var ∧ (c = .check (ctx.file.token q) ∨ c = .checkOuter (ctx.file.token q)) := by
  cases h with
  | argument _ _ _ _ hvar => exact ⟨_, hvar, .inl rfl⟩
  | holder _ _ _ _ _ hvar => exact ⟨_, hvar, .inl rfl⟩
  | capture _ _ _ _ _ _ hvar => exact ⟨_, hvar, .inr rfl⟩

/-- The defects at a moment are those that commands reported before. -/
theorem mem_defects_iff : d ∈ (ctx.stateAt k).defects ↔ ∃ j, j < k ∧ ctx.ReportsAt j d := by
  induction k with
  | zero => simp
  | succ k ih =>
      rcases ctx.stateAt_defects k with hsame | ⟨new, hnew⟩
      · rw [hsame, ih]
        constructor
        · rintro ⟨j, hj, hreport⟩
          exact ⟨j, Nat.lt_succ_of_lt hj, hreport⟩
        · rintro ⟨j, hj, hreport⟩
          rcases Nat.lt_succ_iff_lt_or_eq.mp hj with hj | rfl
          · exact ⟨j, hj, hreport⟩
          · exact absurd (hreport.symm.trans hsame) (List.cons_ne_self d _)
      · rw [show (ctx.stateAt (k + 1)).defects = _ from hnew, List.mem_cons, ih]
        constructor
        · rintro (rfl | ⟨j, hj, hreport⟩)
          · exact ⟨k, Nat.lt_succ_self k, hnew⟩
          · exact ⟨j, Nat.lt_succ_of_lt hj, hreport⟩
        · rintro ⟨j, hj, hreport⟩
          rcases Nat.lt_succ_iff_lt_or_eq.mp hj with hj | rfl
          · exact .inr ⟨j, hj, hreport⟩
          · exact .inl (List.cons.inj (hreport.symm.trans hnew)).1

/-- The missing variables that a scan reports are those that its commands report. -/
theorem mem_defects_of_scan {final : ScanState} (hscan : ctx.scan = .ok final) (hmissing : d.finding.isMissing) :
    d ∈ final.defects ↔ ∃ k, ctx.ReportsAt k d := by
  obtain ⟨st, hst, hfinish⟩ := ctx.scan_eq_ok.mp hscan
  have hfilter := ctx.finish_missing hfinish
  rw [← ctx.stateAt_length_history hst] at hfilter
  have hsame : d ∈ final.defects ↔ d ∈ (ctx.stateAt ctx.history.length).defects := by
    have hmem := congrArg (d ∈ ·) hfilter
    simpa [hmissing] using hmem
  rw [hsame, mem_defects_iff]
  constructor
  · rintro ⟨k, _, hreport⟩
    exact ⟨k, hreport⟩
  · rintro ⟨k, hreport⟩
    refine ⟨k, ?_, hreport⟩
    by_contra hge
    have hnone : ctx.history[k]? = none := List.getElem?_eq_none_iff.mpr (by omega)
    rw [ReportsAt, ctx.stateAt_succ_of_none hnone] at hreport
    exact List.cons_ne_self d _ hreport.symm

end ScanContext

/-! ## The run -/

namespace Linter

variable {linter : Linter} {name source : String} {file : SourceFile}

theorem lintSource_eq_ok (hfile : SourceFile.ofSource name source = .ok file) {defects : List Defect} :
    linter.lintSource name source = .ok defects
      ↔ ∃ final, (linter.context file).scan = .ok final ∧ final.defects.reverse = defects := by
  unfold lintSource
  rw [hfile]
  dsimp only [Linter.defects, ScanContext.defects]
  cases (linter.context file).scan with
  | error e => simp [Except.map, Except.mapError]
  | ok final => simp [Except.map, Except.mapError]

/-- **Reads in a file scope that is not checked.** A read of an unknown variable is reported against the file scope
    for one of the three constructs that check a variable on their own, and for nothing else. Each of them is checked,
    and reported as possibly undefined unless the variable is known in the file scope or set beforehand. -/
theorem fileScope_reports (linter : Linter) (hoff : linter.checkFileScope = false) {name source : String}
    {file : SourceFile} (hfile : SourceFile.ofSource name source = .ok file) :
    let ctx := linter.context file
    -- what the run reports of such reads is what its commands report
    (∀ defects, linter.lintSource name source = .ok defects → ∀ d, d.finding.isUnknownRead →
      (d ∈ defects ↔ ∃ k, ctx.ReportsAt k d))
    -- a report against the file scope comes from one of the constructs
    ∧ (∀ k c d, ctx.ActsAt k c 0 → ctx.ReportsAt k d → d.finding.isUnknownRead →
        ∃ t n i m, ctx.InStep k c t n i m ∧ ctx.ChecksAt (ctx.arrive i (ctx.stateAt n)).currentTypes i c)
    -- a step that succeeds checks the variables of all of them
    ∧ (∀ t n i last c, ctx.StepAt t n i → i < file.size → (ctx.plan i (ctx.stateAt n)).result = .ok last →
        ctx.ChecksAt (ctx.arrive i (ctx.stateAt n)).currentTypes i c → ∃ k m, ctx.InStep k c t n i m)
    -- and what comes of a check against the file scope
    ∧ (∀ k c types i, ctx.ActsAt k c 0 → ctx.ChecksAt types i c →
        ∃ q, file.kind q = .var ∧ ∀ d, ctx.ReportsAt k d ↔ d = ⟨file.token q, .warning, .possiblyUndefined⟩
          ∧ Severity.warning.atLeast linter.level ∧ file.text q ∉ superglobals ∧ file.text q ∉ linter.knownGlobals
          ∧ ¬ ctx.KnownAt k 0 (file.text q)) := by
  intro ctx
  refine ⟨?_, fun k c d hacts hreport hread => ScanContext.checksAt_of_reportsAt hoff hacts hreport hread, ?_, ?_⟩
  · intro defects hdefects d hread
    obtain ⟨final, hscan, rfl⟩ := (lintSource_eq_ok hfile).mp hdefects
    rw [List.mem_reverse, ScanContext.mem_defects_of_scan hscan (Finding.isMissing_of_isUnknownRead hread)]
  · intro t n i last c hstep hi hlast hchecks
    rw [ctx.result_plan] at hlast
    have hmem : c ∈ (ctx.plan i (ctx.stateAt n)).commands := by
      rw [ctx.commands_plan]
      exact List.mem_append_right _ (hchecks.mem_dispatch hlast)
    obtain ⟨m, hm⟩ := List.mem_iff_getElem?.mp hmem
    exact ⟨n + m, m, hstep, hi, rfl, hm⟩
  · intro k c types i hacts hchecks
    obtain ⟨q, hvar, hc⟩ := hchecks.eq_check
    refine ⟨q, hvar, fun d => ?_⟩
    rw [ScanContext.reportsAt_check_iff hc hacts, ScanContext.Predefined, not_or, not_and, and_assoc]
    simp [TokenStream.text, ctx, context]

/-- A linter that does not check the file scope. -/
def withoutFileScope : Linter :=
  ⟨.warning, false, defaultGlobals, []⟩

/-- A read, and the three constructs that check a variable on their own. -/
def fileScopeReads : String :=
  "<?php echo $a; sort($s); global $$g; $f = function() use ($x) \x7b\x7d;"

theorem fileScopeReads_run : (SourceFile.ofSource "f.php" fileScopeReads).toOption.any fun file =>
    let ctx := withoutFileScope.context file
    [23, 45, 68].all fun k =>
      (ctx.history[k]?.any fun c => c.reach + 1 == (ctx.stateAt k).scopes.depth)
        && ((ctx.stateAt (k + 1)).defects.head?.any fun d =>
          d.finding.isUnknownRead && (ctx.stateAt (k + 1)).defects == d :: (ctx.stateAt k).defects) := by
  decide +kernel

/-- The read is not reported, each of the constructs is. -/
theorem fileScopeReads_reports : ∃ file, SourceFile.ofSource "f.php" fileScopeReads = .ok file
    ∧ let ctx := withoutFileScope.context file
      ∀ k ∈ [23, 45, 68], ∃ c t n i m, ctx.ActsAt k c 0 ∧ ctx.InStep k c t n i m
        ∧ ctx.ChecksAt (ctx.arrive i (ctx.stateAt n)).currentTypes i c := by
  obtain ⟨file, hfile, hrun⟩ := exists_ok_of_any fileScopeReads_run
  refine ⟨file, hfile, ?_⟩
  intro ctx k hk
  obtain ⟨hcommand, hdefect⟩ := Bool.and_eq_true_iff.mp (List.all_eq_true.mp hrun k hk)
  obtain ⟨c, hc, hdepth⟩ := (Option.any_eq_true _ _).mp hcommand
  obtain ⟨d, _, hd⟩ := (Option.any_eq_true _ _).mp hdefect
  obtain ⟨hread, hreport⟩ := Bool.and_eq_true_iff.mp hd
  have hreach : c.reach + 1 = (ctx.stateAt k).scopes.depth := eq_of_beq hdepth
  have hacts : ctx.ActsAt k c 0 := ⟨hc, by omega⟩
  obtain ⟨t, n, i, m, hin, hchecks⟩ :=
    (fileScope_reports withoutFileScope rfl hfile).2.1 k c d hacts (eq_of_beq hreport) hread
  exact ⟨c, t, n, i, m, hacts, hin, hchecks⟩

/-- A call that sorts a list which is not known. -/
def unknownList : String :=
  "<?php sort($list);"

theorem unknownList_run : ∃ file, SourceFile.ofSource "f.php" unknownList = .ok file
    ∧ let ctx := withoutFileScope.context file
      let d : Defect := ⟨⟨.var, "$list", 1, 3⟩, .warning, .possiblyUndefined⟩
      (withoutFileScope.lintSource "f.php" unknownList).toOption = some [d]
      ∧ ctx.history[6]? = some (.check d.token) ∧ 1 = (ctx.stateAt 6).scopes.depth
      ∧ (ctx.stateAt 7).defects = d :: (ctx.stateAt 6).defects :=
  exists_ok_of_decide (by decide +kernel)

/-- The list is reported against the file scope, although that is not to be checked. -/
theorem unknownList_reported : ofSettings { level := "warning", checkFileScope := false } [] = .ok withoutFileScope
    ∧ (withoutFileScope.lintSource "f.php" unknownList).toOption
      = some [⟨⟨.var, "$list", 1, 3⟩, .warning, .possiblyUndefined⟩]
    ∧ ∃ file, SourceFile.ofSource "f.php" unknownList = .ok file
      ∧ ∃ k c d, (withoutFileScope.context file).ActsAt k c 0 ∧ (withoutFileScope.context file).ReportsAt k d
        ∧ d.finding.isUnknownRead := by
  obtain ⟨file, hfile, hlint, hcommand, hdepth, hreport⟩ := unknownList_run
  exact ⟨by rfl, hlint, file, hfile, 6, _, _, ⟨hcommand, hdepth⟩, hreport, rfl⟩

end Linter

end Unassigned
