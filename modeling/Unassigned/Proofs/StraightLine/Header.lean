import Unassigned.Proofs.StraightLine.File
import Unassigned.Proofs.StraightLine.Scope

/-!
# `Proofs.StraightLine.Header` — the header of a straight-line function

The parameter list has one element for each parameter (`IsStreamOf.arguments`), so the step at the function
keyword opens a scope, binds the parameters in it and goes on to the body (`IsStreamOf.handleFunction`). After
it exactly the parameters are known (`IsFileOf.scanFrom_header`).
-/

namespace Unassigned

/-- A plan that emits one command for each element. -/
theorem Plan.forM_emit {α : Type} {xs : List α} {act : α → Plan Unit} {command : α → Command}
    (h : ∀ x ∈ xs, act x = .emit (command x)) : xs.forM act = ⟨xs.map command, .ok ()⟩ := by
  induction xs with
  | nil => rfl
  | cons x xs ih =>
      have hrest := ih fun y hy => h y (List.mem_cons_of_mem x hy)
      show act x >>= (fun _ => xs.forM act) = _
      rw [h x (List.mem_cons_self ..), hrest]
      rfl

variable {i : Nat}

/-- A step with a known plan. -/
theorem ScanContext.scanFrom_of_dispatch {ctx : ScanContext} {last : Nat} {st : ScanState} {commands : List Command}
    (hi : i < ctx.file.size) (h : ctx.dispatch (ctx.arrive i st).currentTypes i = ⟨commands, .ok last⟩) :
    ctx.scanFrom i st = ctx.scanFrom (last + 1) (ctx.execute commands (ctx.arrive i st)) := by
  have hresult : (ctx.plan i st).result = .ok last := by rw [ctx.result_plan, h]
  rw [ctx.scanFrom_of_ok hi hresult, ctx.after_eq, h]

theorem TokenStream.isCharOf_of_var {f : TokenStream} (h : f.kind i = .var) (cs : List Char) :
    f.isCharOf i cs = false := by
  rw [← Bool.not_eq_true, TokenStream.isCharOf_iff, h]
  simp

/-- A variable alone is a parameter without type that is not by reference. -/
theorem TokenStream.parameterAt_of_var {f : TokenStream} (h : f.kind i = .var) :
    f.parameterAt i = ⟨some i, false, false⟩ := by
  have hchar : ∀ c, f.isChar i c = false := by
    intro c
    rw [← Bool.not_eq_true, TokenStream.isChar_iff, h]
    simp
  rw [TokenStream.parameterAt, TokenStream.parameterFrom_eq, h, hchar, hchar, TokenStream.isCharOf_of_var h]
  rfl

namespace StraightLine

/-- The variable of a parameter stands at a place. -/
def IsParameter (f : TokenStream) (i : Nat) (x : Identifier) : Prop :=
  f.kind i = .var ∧ f.text i = x.variable

/-- A parameter list goes on to its closing parenthesis. -/
theorem lt_length_of_params {ws tail : List Word} {rest : List Identifier} {k : Nat}
    (h : ws.drop k = rest.flatMap (fun y => [Word.mark .comma, .param y]) ++ .mark .parenClose :: tail) :
    k < ws.length := by
  have hlength := congrArg List.length h
  simp only [List.length_drop, List.length_append, List.length_cons] at hlength
  omega

namespace IsStreamOf

variable {f : TokenStream} {p : Program} (hf : IsStreamOf f p)
variable {k : Nat}

include hf

/-- A word that opens no group. -/
theorem skipGroup_word {w : Word} (hw : p.words[k]? = some w) (hparen : w ≠ .mark .parenOpen)
    (hbrace : w ≠ .mark .braceOpen) : f.skipGroup (2 * k + 1) = 2 * k + 1 := by
  apply hf.skipGroup_other
  · intro hk
    obtain rfl : k = 2 := by omega
    rw [p.words_eq_cons] at hw
    exact hparen (Option.some.inj hw).symm
  · intro hk
    obtain rfl : k = p.bodyStart := by omega
    rw [p.words_bodyStart] at hw
    exact hbrace (Option.some.inj hw).symm

/-! ## The parameter list -/

theorem isParameter {x : Identifier} (hw : p.words[k]? = some (.param x)) : IsParameter f (2 * k + 1) x := by
  refine ⟨hf.holds.kind hw, ?_⟩
  rw [TokenStream.text, hf.holds.word hw]
  rfl

/-- A parameter is an element of the list. -/
theorem elementsFrom_param {x : Identifier} (hw : p.words[k]? = some (.param x)) (hnext : k + 1 < p.words.length) :
    f.elementsFrom [','] [')'] true (2 * k + 1)
      = (2 * k + 1) :: f.elementsFrom [','] [')'] false (2 * (k + 1) + 1) := by
  have hkind : f.kind (2 * k + 1) = .var := hf.holds.kind hw
  have hskip : f.skipGroup (2 * k + 1) = 2 * k + 1 := hf.skipGroup_word hw (by simp) (by simp)
  have hcomma := TokenStream.isCharOf_of_var hkind [',']
  have hclose := TokenStream.isCharOf_of_var hkind [')']
  rw [TokenStream.elementsFrom_eq, hkind, hcomma, hclose]
  simp [hskip, hf.holds.next? (List.getElem?_eq_getElem hnext)]

/-- The parameters after the first one, from a comma or the end of the list on. -/
theorem elementsFrom_params {rest : List Identifier} {tail : List Word}
    (hwords : p.words.drop k = rest.flatMap (fun y => [Word.mark .comma, .param y]) ++ .mark .parenClose :: tail) :
    List.Forall₂ (IsParameter f) (f.elementsFrom [','] [')'] false (2 * k + 1)) rest := by
  induction rest generalizing k with
  | nil =>
      obtain ⟨hparen, _⟩ := getElem?_of_drop hwords
      have hclose : f.isCharOf (2 * k + 1) [')'] = true :=
        TokenStream.isCharOf_iff.mpr ⟨')', by simp, hf.holds.kind hparen⟩
      rw [TokenStream.elementsFrom_eq, hclose, Bool.or_true, if_pos rfl]
      exact .nil
  | cons y rest ih =>
      obtain ⟨hcomma, hdrop⟩ := getElem?_of_drop hwords
      obtain ⟨hparam, hdrop⟩ := getElem?_of_drop hdrop
      have hrest := ih hdrop
      have hkind : f.kind (2 * k + 1) = .char ',' := hf.holds.kind hcomma
      have hclose : f.isCharOf (2 * k + 1) [')'] = false := by
        rw [← Bool.not_eq_true, TokenStream.isCharOf_iff, hkind]
        simp
      have hseparator : f.isCharOf (2 * k + 1) [','] = true :=
        TokenStream.isCharOf_iff.mpr ⟨',', by simp, hkind⟩
      have hstep : f.elementsFrom [','] [')'] false (2 * k + 1)
          = f.elementsFrom [','] [')'] true (2 * (k + 1) + 1) := by
        rw [TokenStream.elementsFrom_eq, hkind, hclose, hseparator]
        simp [hf.holds.next? hparam]
      rw [hstep, hf.elementsFrom_param hparam (lt_length_of_params hdrop)]
      exact .cons (hf.isParameter hparam) hrest

/-- **The elements of the parameter list are the parameters.** -/
theorem arguments : List.Forall₂ (IsParameter f) (f.arguments 5) p.params := by
  have hwords := p.drop_params
  cases hparams : p.params with
  | nil =>
      rw [hparams] at hwords
      have hfirst : f.nextFrom? 6 = some 7 := hf.holds.next? (k := 2) (getElem?_of_drop hwords).1
      have hclose : f.isCharOf 7 [')'] = true :=
        TokenStream.isCharOf_iff.mpr ⟨')', by simp, hf.holds.kind (k := 3) (getElem?_of_drop hwords).1⟩
      simp only [TokenStream.arguments, TokenStream.elements, hfirst]
      rw [TokenStream.elementsFrom_eq, hclose, Bool.or_true, if_pos rfl]
      exact .nil
  | cons x rest =>
      rw [hparams] at hwords
      obtain ⟨hparam, hdrop⟩ := getElem?_of_drop hwords
      have hfirst : f.nextFrom? 6 = some 7 := hf.holds.next? (k := 2) hparam
      simp only [TokenStream.arguments, TokenStream.elements, hfirst]
      rw [hf.elementsFrom_param hparam (lt_length_of_params hdrop)]
      exact .cons (hf.isParameter hparam) (hf.elementsFrom_params hdrop)

/-! ## The step at the function keyword -/

/-- The commands that bind the parameters. -/
def bindings (f : TokenStream) : List Command :=
  (f.arguments 5).map fun i => .bindParameter (f.token i) false

theorem declareParameters : f.declareParameters 5 = ⟨bindings f, .ok ()⟩ := by
  obtain ⟨hvars, _⟩ := (List.forall₂_and_left _ _).mp hf.arguments
  apply Plan.forM_emit
  intro i hi
  simp only [TokenStream.parameterAt_of_var (hvars i hi)]

/-- The captures and the body: there are no captures, and the body follows the parameters. -/
theorem handleBody : (do
    let close ← f.handleCaptures 1 (f.skipGroup 5)
    f.handleBody 1 (f.functionStop? close) : Plan Nat)
      = ⟨[.endAt (2 * p.bodyEnd + 1)], .ok (2 * p.bodyStart + 1)⟩ := by
  have hcaptures : f.handleCaptures 1 (2 * p.paramsEnd + 1) = pure (2 * p.paramsEnd + 1) := by
    rw [TokenStream.handleCaptures, TokenStream.useKeyword?, (functionParen?_of_holds hf.holds).1]
    rfl
  have hnot : ∀ c, c ≠ '\x7b' → f.isChar (2 * p.bodyStart + 1) c = false := by
    intro c hc
    rw [← Bool.not_eq_true, TokenStream.isChar_iff, hf.kind_bodyStart]
    simpa using Ne.symm hc
  have hbrace : f.isChar (2 * p.bodyStart + 1) '\x7b' = true :=
    TokenStream.isChar_iff.mpr hf.kind_bodyStart
  have hstop : f.functionStop? (2 * p.paramsEnd + 1) = some (2 * p.bodyStart + 1) := by
    simp [TokenStream.functionStop?, hf.next?_paramsEnd, hnot ':' (by decide)]
  rw [hf.skipGroup_params, hcaptures]
  show f.handleBody 1 (f.functionStop? (2 * p.paramsEnd + 1)) = _
  simp only [hstop, TokenStream.handleBody, hnot ';' (by decide), hbrace, hf.skipGroup_body]
  rfl

/-- **The step at the function keyword:** a scope with the parameters, up to the end of the body. -/
theorem handleFunction : f.handleFunction 1
    = ⟨.openFunction :: (bindings f ++ [.endAt (2 * p.bodyEnd + 1)]), .ok (2 * p.bodyStart + 1)⟩ := by
  have hprev : f.prevIs 1 (.keyword .useWord) = false := by
    have hpos : 0 < p.words.length := by
      rw [p.length_words]
      omega
    rw [TokenStream.prevIs, hf.holds.prev?_first hpos, Option.any_some, TokenStream.kind,
      hf.holds.separator (k := 0) hpos]
    rfl
  have hparen : f.isChar 5 '(' = true := by
    have hword : p.words[2]? = some (.mark .parenOpen) := by simp [p.words_eq_cons]
    exact (hf.holds.isChar_iff hword).mpr rfl
  have hexpect : f.expect (f.functionParen? 1) '(' .functionHeader 1 = pure 5 := by
    rw [(functionParen?_of_holds hf.holds).2, TokenStream.expect, if_pos hparen]
  rw [TokenStream.handleFunction, hprev, hexpect]
  show Plan.emit .openFunction >>= (fun _ => f.declareParameters 5 >>= fun _ => _) = _
  rw [hf.declareParameters, hf.handleBody]
  rfl

end IsStreamOf

/-! ## The scan of the header -/

/-- Binding the parameters makes them known. -/
theorem InBody.bindings {ctx : ScanContext} {e : Int} {known : String → Prop} {found : List Defect} {st : ScanState}
    (h : InBody e known found st) {f : TokenStream} {places : List Nat} {params : List Identifier}
    (hparams : List.Forall₂ (fun i x => f.text i = x.variable) places params) :
    InBody e (fun name => known name ∨ ∃ x ∈ params, name = x.variable) found
      (ctx.execute (places.map fun i => .bindParameter (f.token i) false) st) := by
  induction hparams generalizing known st with
  | nil => exact h.congr fun name => by simp
  | @cons i x places params hx _ ih =>
      have hname : (f.token i).text = x.variable := hx
      refine (ih (h.bindParameter (f.token i) false)).congr fun name => ?_
      simp only [addName, hname, List.mem_cons, exists_eq_or_imp]
      tauto

/-- Nothing happens on arrival at a token of the header. -/
theorem arrive_empty (ctx : ScanContext) (i : Nat) : ctx.arrive i {} = {} :=
  ctx.arrive_idle rfl rfl i

/-- **After the header exactly the parameters are known.** -/
theorem IsFileOf.scanFrom_header {ctx : ScanContext} {p : Program} (hfile : IsFileOf ctx.file p) :
    ∃ st, ctx.scanFrom 0 {} = ctx.scanFrom (2 * (p.bodyStart + 1)) st
      ∧ InBody (2 * p.bodyEnd + 1 : Nat) (fun name => ∃ x ∈ p.params, name = x.variable) [] st := by
  have hf := hfile.stream
  have hpos : 0 < p.words.length := by
    rw [p.length_words]
    omega
  have hsize := hf.holds.size
  have htag : ctx.dispatch (ctx.arrive 0 {}).currentTypes 0 = .stay [] 0 := by
    have hkind : ctx.file.kind 0 = .openTag := by
      rw [TokenStream.kind, hf.holds.separator (k := 0) hpos]
      rfl
    rw [ScanContext.dispatch, hkind]
  have hkeyword : ctx.dispatch (ctx.arrive 1 {}).currentTypes 1 = ctx.file.handleFunction 1 := by
    have hword : p.words[0]? = some .function := by simp [p.words_eq_cons]
    have hkind : ctx.file.kind 1 = .keyword .functionWord := hf.holds.kind hword
    rw [ScanContext.dispatch, hkind]
    rfl
  rw [hf.handleFunction] at hkeyword
  rw [ctx.scanFrom_of_dispatch (by omega) htag, arrive_empty]
  show ∃ st, ctx.scanFrom 1 {} = _ ∧ _
  rw [ctx.scanFrom_of_dispatch (by omega) hkeyword, arrive_empty]
  refine ⟨_, rfl, ?_⟩
  -- the scope is opened, the parameters are bound in it, and its end is noted
  obtain ⟨_, htexts⟩ := (List.forall₂_and_left _ _).mp hf.arguments
  have hopened : InBody (-1) (fun _ => False) [] (ctx.perform .openFunction {}) := InBody.openFunction
  have hbound : InBody (-1) _ [] (ctx.execute (IsStreamOf.bindings ctx.file.toTokenStream) _) :=
    hopened.bindings htexts
  have hended : InBody (2 * p.bodyEnd + 1 : Nat) _ [] (ctx.perform (.endAt _) _) := hbound.endAt _
  show InBody _ _ _ (ctx.execute (_ ++ _) (ctx.perform .openFunction {}))
  rw [ctx.execute_append]
  exact hended.congr fun name => by rw [false_or]

end StraightLine

end Unassigned
