import Unassigned.Proofs.ErrorToken
import Unassigned.Proofs.Scanning

/-!
# `Proofs.FunctionHeader` — declarations and the scan agree on function headers

The header of a function is read twice: when the functions of a file are declared (`functionAtKeyword`), and
when the scan comes to the keyword (`handleFunction`). The two go different ways. The declaration only looks for
the end of the header, with or without captures; the scan binds parameters and captures on its way, and knows
captures of closures alone.

They agree all the same. `HeaderFault` lists what the scan objects to in a header that was declared; in any other
header it comes to **the same body or semicolon**, and the scope that it opens ends where the declared function
ends.
-/

namespace Unassigned

open Plan

theorem Plan.result_forM_eq_ok {α : Type} {act : α → Plan Unit} {xs : List α} :
    (xs.forM act).result = .ok () ↔ ∀ x ∈ xs, (act x).result = .ok () := by
  induction xs with
  | nil => simp
  | cons x xs ih =>
      show (act x >>= fun _ => xs.forM act).result = .ok () ↔ _
      rw [result_bind_eq_ok, List.forall_mem_cons, ← ih]
      constructor
      · rintro ⟨_, hx, hxs⟩
        exact ⟨hx, hxs⟩
      · rintro ⟨hx, hxs⟩
        exact ⟨(), hx, hxs⟩

namespace TokenStream

variable (f : TokenStream)

/-! ## Parts of a header -/

/-- A captured variable starts here: a variable, or an ampersand and a variable. -/
def IsCapture (first : Nat) : Prop :=
  f.kind first = .var ∨ f.isChar first '&' ∧ ∃ i, f.next? first = some i ∧ f.kind i = .var

/-- **What a scan objects to** in the header of a declared function. -/
inductive HeaderFault (d : FunctionDecl) : Prop where
  /-- Captures of a function with a name. -/
  | namedUse {n : Nat} : d.name.isSome → f.next? (f.skipGroup d.paramsStart) = some n →
      f.kind n = .keyword .useWord → HeaderFault d
  | parameter {first : Nat} : first ∈ f.arguments d.paramsStart → (f.parameterAt first).varIndex = none →
      HeaderFault d
  | capture {n paren first : Nat} : d.name = none → f.next? (f.skipGroup d.paramsStart) = some n →
      f.kind n = .keyword .useWord → f.next? n = some paren → first ∈ f.arguments paren →
      ¬ f.IsCapture first → HeaderFault d

variable {f}
variable {paren keyword stop i close : Nat}

theorem declareParameters_eq_ok : (f.declareParameters paren).result = .ok ()
    ↔ ∀ first ∈ f.arguments paren, (f.parameterAt first).varIndex ≠ none := by
  unfold declareParameters
  rw [result_forM_eq_ok]
  refine forall₂_congr fun first _ => ?_
  dsimp only
  cases (f.parameterAt first).varIndex with
  | none => simp
  | some i => simp

theorem captureVariables_eq_ok : (f.captureVariables paren).result = .ok ()
    ↔ ∀ first ∈ f.arguments paren, f.IsCapture first := by
  unfold captureVariables
  rw [result_forM_eq_ok]
  refine forall₂_congr fun first _ => ?_
  unfold captureVariable withoutAmpersand IsCapture
  by_cases hamp : f.isChar first '&'
  · -- an ampersand is no variable
    have hkind : f.kind first ≠ .var := by
      rw [isChar_iff.mp hamp]
      decide
    cases f.next? first with
    | none => simp [hamp, hkind]
    | some i =>
        by_cases hvar : f.kind i = .var
        · simp [hamp, hvar]
        · simp [hamp, hvar, hkind]
  · by_cases hvar : f.kind first = .var
    · simp [hamp, hvar]
    · simp [hamp, hvar]

theorem handleBody_eq_ok {place : Option Nat} :
    (f.handleBody keyword place).result = .ok stop ↔ place = some stop ∧ f.isCharOf stop ['\x7b', ';'] := by
  constructor
  · intro h
    obtain rfl := f.eq_of_handleBody h
    refine ⟨rfl, isCharOf_iff.mpr ?_⟩
    unfold handleBody at h
    dsimp only at h
    split at h
    · next hsemi => exact ⟨';', by simp, isChar_iff.mp hsemi⟩
    · split at h
      · next hbrace => exact ⟨'\x7b', by simp, isChar_iff.mp hbrace⟩
      · cases h
  · rintro ⟨rfl, hstop⟩
    obtain ⟨c, hc, hkind⟩ := isCharOf_iff.mp hstop
    unfold handleBody
    dsimp only
    by_cases hsemi : f.isChar stop ';'
    · rw [if_pos hsemi]
      rfl
    · have hbrace : f.isChar stop '\x7b' := by
        rcases List.mem_pair.mp hc with rfl | rfl
        · exact isChar_iff.mpr hkind
        · exact absurd (isChar_iff.mpr hkind) hsemi
      rw [if_neg hsemi, if_pos hbrace]
      rfl

/-- What a declaration says of a header that ends at `stop`. -/
structure Declares (f : TokenStream) (d : FunctionDecl) (stop : Nat) : Prop where
  paren : f.functionParen? d.keywordIndex = some d.paramsStart
  opens : f.isChar d.paramsStart '('
  name : d.name.isSome ↔ (f.functionName? d.keywordIndex).isSome
  headerEnd : f.headerEnd? d.paramsStart = some stop
  body : f.isChar stop '\x7b' → d.bodyStart = some stop ∧ d.endIndex = f.skipGroup stop
  noBody : ¬ f.isChar stop '\x7b' → d.bodyStart = none ∧ d.endIndex = stop

theorem declares_of_functionAtKeyword {classes : List ClassDecl} {d : FunctionDecl}
    (h : f.functionAtKeyword classes i = .ok d) : d.keywordIndex = i ∧ ∃ stop, f.Declares d stop := by
  unfold functionAtKeyword at h
  split at h
  · cases h
  · next paren hparen =>
      split at h
      · next hopens =>
          split at h
          · cases h
          · next stop hstop =>
              obtain rfl := Except.ok.inj h
              refine ⟨rfl, stop, hparen, hopens, ?_, hstop, ?_, ?_⟩
              · rw [Option.isSome_map]
              · intro hbody
                exact ⟨if_pos hbody, if_pos hbody⟩
              · intro hbody
                exact ⟨if_neg hbody, if_neg hbody⟩
      · cases h

/-! ## The scan of a declared header -/

theorem expect_eq_ok {c : Char} {construct : Construct} (h : f.isChar i c) :
    (f.expect (some i) c construct keyword).result = .ok i := by
  unfold expect
  dsimp only
  rw [if_pos h]
  rfl

theorem handleCaptures_of_none (h : f.useKeyword? keyword close = none) :
    (f.handleCaptures keyword close).result = .ok close := by
  unfold handleCaptures
  rw [h]
  rfl

theorem handleCaptures_of_some {n captures : Nat} (h : f.useKeyword? keyword close = some n)
    (hcaptures : f.next? n = some captures) (hopen : f.isChar captures '(') :
    (f.handleCaptures keyword close).result = .ok stop
      ↔ (f.captureVariables captures).result = .ok () ∧ f.skipGroup captures = stop := by
  unfold handleCaptures
  rw [h]
  dsimp only
  rw [hcaptures, bind_of_ok (expect_eq_ok hopen), result_bind_eq_ok]
  constructor
  · rintro ⟨_, hbound, hstop⟩
    exact ⟨hbound, Except.ok.inj hstop⟩
  · rintro ⟨hbound, rfl⟩
    exact ⟨(), hbound, rfl⟩

/-- A closure has captures if `use` stands behind its parameters, and a function with a name has none. -/
theorem useKeyword?_eq (keyword : Nat) {n : Nat} (hn : f.next? close = some n) :
    f.useKeyword? keyword close
      = if (f.functionName? keyword).isSome ∨ f.kind n ≠ .keyword .useWord then none else some n := by
  unfold useKeyword?
  rw [hn]
  by_cases hname : (f.functionName? keyword).isSome
  · simp [hname]
  · by_cases hkind : f.kind n = .keyword .useWord
    · simp [hname, hkind, Option.filter]
    · simp [hname, hkind, Option.filter]

theorem handleFunction_eq_ok (huse : ¬ f.prevIs i (.keyword .useWord)) (hparen : f.functionParen? i = some paren)
    (hopens : f.isChar paren '(') :
    (f.handleFunction i).result = .ok stop ↔ (f.declareParameters paren).result = .ok ()
      ∧ ∃ close, (f.handleCaptures i (f.skipGroup paren)).result = .ok close
        ∧ (f.handleBody i (f.functionStop? close)).result = .ok stop := by
  unfold handleFunction
  rw [if_neg huse, hparen, bind_of_ok (result_emit _), bind_of_ok (expect_eq_ok hopens)]
  dsimp only
  rw [result_bind_eq_ok]
  constructor
  · rintro ⟨_, hparams, h⟩
    exact ⟨hparams, result_bind_eq_ok.mp h⟩
  · rintro ⟨hparams, h⟩
    exact ⟨(), hparams, result_bind_eq_ok.mpr h⟩

namespace Declares

variable {d : FunctionDecl} {stop : Nat}

theorem isChar_of_bodyStart (hd : f.Declares d stop) {body : Nat} (h : d.bodyStart = some body) :
    f.isChar stop '\x7b' := by
  by_contra hother
  cases h.symm.trans (hd.noBody hother).1

/-- **A header without fault** leads the scan where the declaration says it ends. -/
theorem result_of_not_fault (hd : f.Declares d stop) (huse : ¬ f.prevIs d.keywordIndex (.keyword .useWord))
    (hfault : ¬ f.HeaderFault d) : (f.handleFunction d.keywordIndex).result = .ok stop := by
  obtain ⟨hstop, n, hn, hheader⟩ := headerEnd?_eq_some hd.headerEnd
  rw [handleFunction_eq_ok huse hd.paren hd.opens]
  refine ⟨declareParameters_eq_ok.mpr fun first hfirst hnone => hfault (.parameter hfirst hnone), ?_⟩
  have hkeyword := useKeyword?_eq d.keywordIndex hn
  rcases hheader with ⟨hkind, captures, hcaptures, hopen, hend⟩ | ⟨hkind, hend⟩
  · -- captures, which only a closure can have here
    have hname : ¬ d.name.isSome := fun hname => hfault (.namedUse hname hn hkind)
    rw [if_neg (by simp [← hd.name, hname, hkind])] at hkeyword
    refine ⟨f.skipGroup captures, (handleCaptures_of_some hkeyword hcaptures hopen).mpr ⟨?_, rfl⟩,
      handleBody_eq_ok.mpr ⟨hend, hstop⟩⟩
    refine captureVariables_eq_ok.mpr fun first hfirst => ?_
    by_contra hcapture
    exact hfault (.capture (by simpa using hname) hn hkind hcaptures hfirst hcapture)
  · rw [if_pos (.inr hkind)] at hkeyword
    exact ⟨_, handleCaptures_of_none hkeyword, handleBody_eq_ok.mpr ⟨hend, hstop⟩⟩

/-- **A header with a fault** stops the scan. -/
theorem result_ne_ok_of_fault (hd : f.Declares d stop) (huse : ¬ f.prevIs d.keywordIndex (.keyword .useWord))
    (hfault : f.HeaderFault d) (last : Nat) : (f.handleFunction d.keywordIndex).result ≠ .ok last := by
  intro hlast
  obtain ⟨hparams, close, hclose, hbody⟩ := (handleFunction_eq_ok huse hd.paren hd.opens).mp hlast
  cases hfault with
  | parameter hfirst hnone => exact declareParameters_eq_ok.mp hparams _ hfirst hnone
  | @namedUse n hname hn hkind =>
      -- the scan takes `use` for the token behind the header
      have hkeyword := useKeyword?_eq d.keywordIndex hn
      rw [if_pos (.inl (hd.name.mp hname))] at hkeyword
      obtain rfl := Except.ok.inj ((handleCaptures_of_none hkeyword).symm.trans hclose)
      obtain ⟨hplace, hchar⟩ := handleBody_eq_ok.mp hbody
      have hcolon : ¬ f.isChar n ':' := by
        rw [isChar_iff, hkind]
        nofun
      rw [functionStop?_of_next hn, if_neg hcolon] at hplace
      obtain rfl := Option.some.inj hplace
      obtain ⟨c, _, hc⟩ := isCharOf_iff.mp hchar
      cases hkind.symm.trans hc
  | @capture n captures first hname hn hkind hcaptures hfirst hcapture =>
      have hkeyword := useKeyword?_eq d.keywordIndex hn
      rw [if_neg (by simp [← hd.name, hname, hkind])] at hkeyword
      obtain ⟨_, n', hn', hheader⟩ := headerEnd?_eq_some hd.headerEnd
      obtain rfl := Option.some.inj (hn.symm.trans hn')
      rcases hheader with ⟨_, captures', hcaptures', hopen, _⟩ | ⟨hother, _⟩
      · obtain rfl := Option.some.inj (hcaptures.symm.trans hcaptures')
        have hbound := ((handleCaptures_of_some hkeyword hcaptures hopen).mp hclose).1
        exact hcapture (captureVariables_eq_ok.mp hbound first hfirst)
      · exact hother hkind

end Declares

end TokenStream

/-! ## Files -/

namespace SourceFile

variable {name source : String} {file : SourceFile}

/-- A declared function comes from a keyword outside `use`, and its header was read there. -/
theorem declares_of_mem (h : ofSource name source = .ok file) {d : FunctionDecl} (hd : d ∈ file.functions) :
    file.kind d.keywordIndex = .keyword .functionWord ∧ ¬ file.prevIs d.keywordIndex (.keyword .useWord)
      ∧ ∃ stop, file.Declares d stop := by
  obtain ⟨tokens, _, hfile⟩ := ofSource_eq_ok h
  obtain ⟨_, _, hfunctions, _⟩ := ofTokens_eq_ok hfile
  obtain ⟨i, hi, hdecl⟩ := exists_left_of_forall₂ (mapM_eq_ok.mp hfunctions) hd
  obtain ⟨rfl, hstop⟩ := TokenStream.declares_of_functionAtKeyword hdecl
  have hkeyword := (List.mem_filter.mp hi).2
  simp only [TokenStream.declaresFunction, Bool.and_eq_true, beq_iff_eq, Bool.not_eq_true',
    Bool.eq_false_iff] at hkeyword
  exact ⟨hkeyword.1, hkeyword.2, hstop⟩

/-- A function keyword without declared function stands in a `use`. -/
theorem prevIs_use_of_undeclared (h : ofSource name source = .ok file) {i : Nat}
    (hi : file.kind i = .keyword .functionWord) (hnone : ∀ d ∈ file.functions, d.keywordIndex ≠ i) :
    file.prevIs i (.keyword .useWord) := by
  by_contra huse
  obtain ⟨tokens, _, hfile⟩ := ofSource_eq_ok h
  obtain ⟨_, _, hfunctions, _⟩ := ofTokens_eq_ok hfile
  have hsize : i < file.size := TokenStream.lt_size_of_kind (by rw [hi]; nofun)
  have hdeclares : file.declaresFunction i := by
    simpa [TokenStream.declaresFunction, hi] using huse
  have hmem : i ∈ (List.range file.size).filter file.declaresFunction :=
    List.mem_filter.mpr ⟨List.mem_range.mpr hsize, hdeclares⟩
  obtain ⟨d, hd, hdecl⟩ := exists_right_of_forall₂ (mapM_eq_ok.mp hfunctions) hmem
  exact hnone d hd (TokenStream.declares_of_functionAtKeyword hdecl).1

end SourceFile

/-- **Declarations and the scan agree on every function header.** At the keyword of a declared function the scan
    stops exactly if the header has a fault. Otherwise it goes on at the declared body, in a strict scope of its own
    that ends where the function ends, or at the semicolon of a declaration without body, with the scopes it came
    with. At any other function keyword it does nothing. -/
theorem functionHeaders_agree {name source : String} {ctx : ScanContext}
    (h : SourceFile.ofSource name source = .ok ctx.file) (st : ScanState) :
    (∀ d ∈ ctx.file.functions,
      ((∃ e, (ctx.file.handleFunction d.keywordIndex).result = .error (.analysis e)) ↔ ctx.file.HeaderFault d)
      ∧ (¬ ctx.file.HeaderFault d → ∀ body, d.bodyStart = some body →
          (ctx.file.handleFunction d.keywordIndex).result = .ok body
          ∧ ∃ top below,
              (ctx.execute (ctx.file.handleFunction d.keywordIndex).commands st).scopes.frames = top :: below
              ∧ top.mode = .strict ∧ top.endIndex = d.endIndex ∧ FramesGrow st.scopes.frames below)
      ∧ (¬ ctx.file.HeaderFault d → d.bodyStart = none →
          (ctx.file.handleFunction d.keywordIndex).result = .ok d.endIndex
          ∧ FramesGrow st.scopes.frames
              (ctx.execute (ctx.file.handleFunction d.keywordIndex).commands st).scopes.frames))
    ∧ ∀ i, ctx.file.kind i = .keyword .functionWord → (∀ d ∈ ctx.file.functions, d.keywordIndex ≠ i) →
        (ctx.file.handleFunction i).result = .ok i ∧ ctx.execute (ctx.file.handleFunction i).commands st = st := by
  refine ⟨fun d hd => ?_, fun i hi hnone => ?_⟩
  · obtain ⟨_, huse, stop, hdecl⟩ := SourceFile.declares_of_mem h hd
    refine ⟨⟨?_, ?_⟩, ?_, ?_⟩
    · rintro ⟨e, he⟩
      by_contra hfault
      cases he.symm.trans (hdecl.result_of_not_fault huse hfault)
    · intro hfault
      cases hresult : (ctx.file.handleFunction d.keywordIndex).result with
      | ok last => exact absurd hresult (hdecl.result_ne_ok_of_fault huse hfault last)
      | error e =>
          obtain ⟨error, _, rfl, _⟩ := (ctx.file.handleFunction_keeps _).error e hresult
          exact ⟨error, rfl⟩
    · intro hfault body hbody
      have hresult := hdecl.result_of_not_fault huse hfault
      obtain ⟨hstart, hend⟩ := hdecl.body (hdecl.isChar_of_bodyStart hbody)
      obtain rfl : body = stop := Option.some.inj (hbody.symm.trans hstart)
      obtain ⟨cs, hcs, ⟨_, hcommands⟩ | ⟨hsemi, _⟩⟩ := ctx.file.commands_of_handleFunction huse hresult
      · rw [hcommands, hend]
        exact ⟨hresult, ctx.frames_body hcs _ st⟩
      · cases (TokenStream.isChar_iff.mp hsemi).symm.trans
          (TokenStream.isChar_iff.mp (hdecl.isChar_of_bodyStart hbody))
    · intro hfault hbody
      have hresult := hdecl.result_of_not_fault huse hfault
      obtain ⟨cs, hcs, ⟨hbrace, _⟩ | ⟨_, hcommands⟩⟩ := ctx.file.commands_of_handleFunction huse hresult
      · cases hbody.symm.trans (hdecl.body hbrace).1
      · have hbrace : ¬ ctx.file.isChar stop '\x7b' := fun hbrace => by
          cases hbody.symm.trans (hdecl.body hbrace).1
        rw [hcommands, (hdecl.noBody hbrace).2]
        exact ⟨hresult, ctx.frames_noBody hcs st⟩
  · have huse := SourceFile.prevIs_use_of_undeclared h hi hnone
    unfold TokenStream.handleFunction
    rw [if_pos huse]
    exact ⟨rfl, rfl⟩

/-- A source with four function keywords: one that declares no function, a function with a body, one without body,
    and one that has captures in spite of its name. -/
def fourHeaders : String :=
  "<?php use function g; function f($a) \x7b \x7d abstract class A \x7b abstract function m(); \x7d "
    ++ "function h() use ($b) \x7b \x7d"

theorem fourHeaders_run : ∃ file, SourceFile.ofSource "f.php" fourHeaders = .ok file
    ∧ file.kind 3 = .keyword .functionWord
    ∧ file.functions.map (fun d => (d.keywordIndex, d.bodyStart,
        ((file.handleFunction d.keywordIndex).result matches .error (.analysis _) : Bool)))
      = [(8, some 15, false), (29, none, false), (38, some 50, true)] :=
  exists_ok_of_decide (by decide +kernel)

theorem fourHeaders_agree : ∃ file, SourceFile.ofSource "f.php" fourHeaders = .ok file
    ∧ (∃ f m h, file.functions = [f, m, h]
      ∧ (¬ file.HeaderFault f ∧ (file.handleFunction f.keywordIndex).result = .ok 15)
      ∧ (¬ file.HeaderFault m ∧ (file.handleFunction m.keywordIndex).result = .ok m.endIndex)
      ∧ file.HeaderFault h)
    ∧ (file.handleFunction 3).result = .ok 3 := by
  obtain ⟨file, hfile, hkind, hmap⟩ := fourHeaders_run
  obtain ⟨hdeclared, hother⟩ := @functionHeaders_agree _ _ { file, signatures := {} } hfile {}
  obtain ⟨f, _, hf, hfrun, hmap⟩ := List.map_eq_cons_iff.mp hmap
  obtain ⟨m, _, rfl, hmrun, hmap⟩ := List.map_eq_cons_iff.mp hmap
  obtain ⟨h, _, rfl, hhrun, hmap⟩ := List.map_eq_cons_iff.mp hmap
  obtain rfl := List.map_eq_nil_iff.mp hmap
  simp only [Prod.mk.injEq] at hfrun hmrun hhrun
  -- a header has a fault exactly if the scan was seen to stop at it
  have hfault : ∀ d ∈ file.functions, file.HeaderFault d
      ↔ ((file.handleFunction d.keywordIndex).result matches .error (.analysis _)) := by
    intro d hd
    rw [← (hdeclared d hd).1]
    split
    · next e he => exact iff_of_true ⟨e, he⟩ rfl
    · next hne => exact iff_of_false (fun ⟨e, he⟩ => hne e he) nofun
  have hmem : f ∈ file.functions ∧ m ∈ file.functions ∧ h ∈ file.functions := by simp [hf]
  have hfok : ¬ file.HeaderFault f := by simp [hfault f hmem.1, hfrun.2.2]
  have hmok : ¬ file.HeaderFault m := by simp [hfault m hmem.2.1, hmrun.2.2]
  refine ⟨file, hfile, ⟨f, m, h, hf, ⟨hfok, ?_⟩, ⟨hmok, ?_⟩, ?_⟩, ?_⟩
  · exact ((hdeclared f hmem.1).2.1 hfok 15 hfrun.2.1).1
  · exact ((hdeclared m hmem.2.1).2.2 hmok hmrun.2.1).1
  · exact (hfault h hmem.2.2).mpr hhrun.2.2
  · refine (hother 3 hkind fun d hd => ?_).1
    rw [hf] at hd
    simp only [List.mem_cons, List.not_mem_nil, or_false] at hd
    rcases hd with rfl | rfl | rfl <;> omega

end Unassigned
