import Unassigned.Proofs.ScopeStep
import Unassigned.Proofs.StraightLine.Program

/-!
# `Proofs.StraightLine.Scope` — the scope of a function in the scan of its body

In the body of a straight-line function the stack holds the scope of the function on top of that of the file,
nothing is waiting, and no token has been dealt with in advance (`InBody`). Such a state is described by the
names that are known and the defects found: an assignment makes a name known, and a read of an unknown name is
a defect and makes it known too (`InBody.assign`, `InBody.read`).
-/

namespace Unassigned

/-- Where nothing is waiting, only scopes that have ended are dropped on arrival. -/
theorem ScanContext.arrive_idle (ctx : ScanContext) {st : ScanState} (hpending : st.scopes.pending = none)
    (hannotations : st.annotations = []) (i : Nat) :
    ctx.arrive i st = { st with scopes := st.scopes.dropFinished i } := by
  obtain ⟨⟨frames, pending⟩, defects, consumed, annotations, annotationsEnd⟩ := st
  obtain rfl : pending = none := hpending
  obtain rfl : annotations = [] := hannotations
  simp [ScanContext.arrive, arrival, ScanContext.execute, ScanContext.perform, ScanContext.applySwitch,
    ScopeStack.applyPending, ScopeStack.due?, ScanState.onScopes]

namespace StraightLine

/-! ## The frame of the function -/

/-- A strict frame that ends at `e`, with variables of its own for exactly the names that satisfy `known`. -/
structure IsFunctionFrame (frame : Frame) (e : Int) (known : String → Prop) : Prop where
  mode : frame.mode = .strict
  endIndex : frame.endIndex = e
  names : ∀ name, frame.declares name ↔ known name
  own : ∀ name binding, frame.bindings.lookup name = some binding → ∃ v, binding = .own v

/-- The names that are known once a name became known. -/
def addName (name : String) (known : String → Prop) : String → Prop :=
  fun other => other = name ∨ known other

theorem exists_lookup_of_hasKey {α : Type} {key : String} {table : List (String × α)}
    (h : Ordered.hasKey key table) : ∃ value, table.lookup key = some value := by
  induction table with
  | nil => cases h
  | cons entry rest ih =>
      obtain ⟨k, value⟩ := entry
      by_cases hkey : key = k
      · exact ⟨value, by simp [hkey]⟩
      · have hrest : Ordered.hasKey key rest := by
          simpa [Ordered.hasKey, Ne.symm hkey] using h
        obtain ⟨value, hvalue⟩ := ih hrest
        have hne : (key == k) = false := beq_eq_false_iff_ne.mpr hkey
        exact ⟨value, by simpa [List.lookup_cons, hne] using hvalue⟩

namespace IsFunctionFrame

variable {frame : Frame} {e : Int} {known : String → Prop}

/-- Binding a name makes it known. -/
theorem insert (h : IsFunctionFrame frame e known) (name : String) (v : Variable) :
    IsFunctionFrame { frame with bindings := Ordered.insert name (.own v) frame.bindings } e
      (addName name known) where
  mode := h.mode
  endIndex := h.endIndex
  names := by
    intro other
    rw [Frame.declares_iff, Frame.names_insert, addName, ← h.names, Frame.declares_iff]
    split
    · next hmem =>
        exact ⟨.inr, fun hother => hother.elim (fun heq => heq ▸ hmem) id⟩
    · rw [List.mem_append, List.mem_singleton, or_comm]
  own := by
    intro other binding hlookup
    by_cases hother : other = name
    · subst hother
      rw [Ordered.lookup_insert_self] at hlookup
      exact ⟨v, (Option.some.inj hlookup).symm⟩
    · rw [Ordered.lookup_insert_of_ne hother] at hlookup
      exact h.own other binding hlookup

theorem congr {known' : String → Prop} (h : IsFunctionFrame frame e known) (hknown : ∀ name, known name ↔ known' name) :
    IsFunctionFrame frame e known' :=
  ⟨h.mode, h.endIndex, fun name => (h.names name).trans (hknown name), h.own⟩

/-- Changing a variable that is known changes nothing else. -/
theorem modifyVariable (h : IsFunctionFrame frame e known) {name : String} (hname : known name)
    (change : Variable → Variable) (below : List Frame) :
    ∃ frame', modifyVariable name change (frame :: below) = frame' :: below ∧ IsFunctionFrame frame' e known := by
  obtain ⟨binding, hlookup⟩ := exists_lookup_of_hasKey ((h.names name).mpr hname)
  obtain ⟨v, rfl⟩ := h.own name binding hlookup
  refine ⟨_, by rw [Unassigned.modifyVariable, hlookup], (h.insert name (change v)).congr fun other => ?_⟩
  exact ⟨fun hother => hother.elim (fun heq => heq ▸ hname) id, .inr⟩

/-- Touching a variable makes its name known. -/
theorem touchVariable (h : IsFunctionFrame frame e known) (token : Token) (change : Variable → Variable)
    (hchange : ∀ v, (change v).token = v.token) (below : List Frame) :
    ∃ frame', touchVariable token change (frame :: below) = frame' :: below
      ∧ IsFunctionFrame frame' e (addName token.text known) := by
  rw [Unassigned.touchVariable]
  split
  · next hdeclares =>
      have hknown := (h.names _).mp hdeclares
      obtain ⟨frame', heq, hframe⟩ := h.modifyVariable hknown (fun v => change { v with token := token }) below
      refine ⟨frame', heq, hframe.congr fun other => ⟨.inr, ?_⟩⟩
      exact fun hother => hother.elim (fun hsame => hsame ▸ hknown) id
  · have hname : (change { token := token }).name = token.text := by
      rw [Variable.name, hchange]
    refine ⟨_, rfl, ?_⟩
    rw [← hname]
    exact h.insert _ _

end IsFunctionFrame

/-! ## States in the body -/

/-- The state of a scan in the body of a function that ends at `e`: the names that are known, and the defects
    found so far, the latest first. -/
structure InBody (e : Int) (known : String → Prop) (found : List Defect) (st : ScanState) : Prop where
  scopes : ∃ frame, st.scopes = { frames := [frame, { mode := .relaxed }], pending := none }
    ∧ IsFunctionFrame frame e known
  consumed : st.consumed = []
  annotations : st.annotations = []
  defects : st.defects = found

namespace InBody

variable {ctx : ScanContext} {e : Int} {known : String → Prop} {found : List Defect} {st : ScanState}

theorem congr {known' : String → Prop} (h : InBody e known found st) (hknown : ∀ name, known name ↔ known' name) :
    InBody e known' found st := by
  obtain ⟨frame, hscopes, hframe⟩ := h.scopes
  exact ⟨⟨frame, hscopes, hframe.congr hknown⟩, h.consumed, h.annotations, h.defects⟩

/-- A function is opened with nothing known in it; where it ends is not known yet. -/
theorem openFunction : InBody (-1) (fun _ => False) [] (ctx.perform .openFunction {}) := by
  refine ⟨⟨{ mode := .strict }, rfl, ?_⟩, rfl, rfl, rfl⟩
  refine ⟨rfl, rfl, ?_, ?_⟩
  · intro name
    simp [Frame.declares, Ordered.hasKey]
  · intro name binding hlookup
    cases hlookup

/-- A parameter is known. -/
theorem bindParameter (h : InBody e known found st) (token : Token) (isRef : Bool) :
    InBody e (addName token.text known) found (ctx.perform (.bindParameter token isRef) st) := by
  obtain ⟨frame, hscopes, hframe⟩ := h.scopes
  refine ⟨⟨_, ?_, hframe.insert token.text { token, status := .assigned, isRefParam := isRef }⟩,
    h.consumed, h.annotations, h.defects⟩
  show st.scopes.modifyTop _ = _
  rw [hscopes]
  rfl

/-- The end of the function becomes known. -/
theorem endAt (h : InBody e known found st) (stop : Nat) :
    InBody stop known found (ctx.perform (.endAt stop) st) := by
  obtain ⟨frame, hscopes, hframe⟩ := h.scopes
  refine ⟨⟨{ frame with endIndex := stop }, ?_, hframe.mode, rfl, hframe.names, hframe.own⟩,
    h.consumed, h.annotations, h.defects⟩
  show st.scopes.modifyTop _ = _
  rw [hscopes]
  rfl

/-- Nothing happens on arrival at a token before the end. -/
theorem arrive (h : InBody e known found st) {i : Nat} (hi : (i : Int) < e) : ctx.arrive i st = st := by
  obtain ⟨frame, hscopes, hframe⟩ := h.scopes
  have hend : ¬ frame.endIndex ≤ (i : Int) := by
    rw [hframe.endIndex]
    omega
  have hkeep : st.scopes.dropFinished i = st.scopes := by
    rw [hscopes]
    simp [ScopeStack.dropFinished, ScopeStack.dropFinishedFrames, hend]
  rw [ctx.arrive_idle (by rw [hscopes]) h.annotations, hkeep]

/-- At its end the scope of the function is dropped. -/
theorem leave (h : InBody e known found st) {i : Nat} (hi : e ≤ i) :
    (ctx.arrive i st).scopes = {} ∧ (ctx.arrive i st).defects = found := by
  obtain ⟨frame, hscopes, hframe⟩ := h.scopes
  have hend : frame.endIndex ≤ (i : Int) := by
    rw [hframe.endIndex]
    exact hi
  have hdrop : st.scopes.dropFinished i = {} := by
    rw [hscopes]
    simp [ScopeStack.dropFinished, ScopeStack.dropFinishedFrames, hend]
  rw [ctx.arrive_idle (by rw [hscopes]) h.annotations, hdrop]
  exact ⟨rfl, h.defects⟩

/-- No annotation is waiting. -/
theorem applyDocComment (h : InBody e known found st) (token : Token) :
    ctx.perform (.applyDocComment token) st = st := by
  show ScanContext.applyDocComment token st = st
  rw [ScanContext.applyDocComment, h.annotations]
  rfl

theorem assignWith (h : InBody e known found st) (token : Token) {change : Variable → Variable}
    (hchange : ∀ v, (change v).token = v.token) :
    InBody e (addName token.text known) found (st.assignWith 0 token change) := by
  obtain ⟨frame, hscopes, hframe⟩ := h.scopes
  obtain ⟨frame', heq, hframe'⟩ := hframe.touchVariable token
    (fun v => change { v with status := .assigned }) (fun v => hchange _) [{ mode := .relaxed }]
  refine ⟨⟨frame', ?_, hframe'⟩, h.consumed, h.annotations, h.defects⟩
  show st.scopes.touch 0 token _ = _
  rw [hscopes, ScopeStack.touch, ScopeStack.modifyFrom]
  simp [heq]

/-- An assignment makes its name known. -/
theorem assign (h : InBody e known found st) (token : Token) :
    InBody e (addName token.text known) found (ctx.perform (.assign token .plain) st) :=
  h.assignWith token fun _ => rfl

/-- What the stack says in the body. -/
theorem view (h : InBody e known found st) : st.scopes.modeAt 0 = .strict ∧ st.scopes.depth = 2
    ∧ ∀ name, st.scopes.declares 0 name ↔ known name := by
  obtain ⟨frame, hscopes, hframe⟩ := h.scopes
  have hdeclares := hframe.names
  rw [hscopes]
  exact ⟨hframe.mode, rfl, by simpa [ScopeStack.declares, ScopeStack.frame?] using hdeclares⟩

/-- A known variable is only marked as used. -/
theorem use (h : InBody e known found st) {name : String} (hname : known name) (change : Variable → Variable) :
    InBody e known found (st.onScopes fun scopes => scopes.modifyVar 0 name change) := by
  obtain ⟨frame, hscopes, hframe⟩ := h.scopes
  obtain ⟨frame', heq, hframe'⟩ := hframe.modifyVariable hname change [{ mode := .relaxed }]
  refine ⟨⟨frame', ?_, hframe'⟩, h.consumed, h.annotations, h.defects⟩
  show st.scopes.modifyVar 0 name change = _
  rw [hscopes, ScopeStack.modifyVar, ScopeStack.modifyFrom]
  simp [heq]

theorem report (h : InBody e known found st) (hlevel : ctx.level = .notice) (token : Token) (finding : Finding) :
    InBody e known (⟨token, .error, finding⟩ :: found) (ctx.report token .error finding st) := by
  rw [ScanContext.report, hlevel]
  exact ⟨h.scopes, h.consumed, h.annotations, congrArg _ h.defects⟩

variable (hlevel : ctx.level = .notice) (hscope : ctx.checkFileScope = true)
include hscope

theorem perform_read (h : InBody e known found st) (token : Token) :
    ctx.perform (.read token) st = ctx.check token false 0 true st := by
  show ctx.read token st = _
  rw [ScanContext.read, h.consumed, ScanContext.skipsReads, hscope]
  rfl

/-- A read of a superglobal or a known name is no defect. -/
theorem read_known (h : InBody e known found st) {token : Token}
    (hknown : superglobals.contains token.text ∨ known token.text) :
    InBody e known found (ctx.perform (.read token) st) := by
  obtain ⟨_, hdepth, hdeclares⟩ := h.view
  rw [h.perform_read hscope, ScanContext.check]
  split
  · exact h
  · next hpredefined =>
      have hname : known token.text := by
        refine hknown.resolve_left fun hglobal => hpredefined ?_
        simp only [ScanContext.isPredefined, hglobal, Bool.true_or]
      rw [if_pos ((hdeclares _).mpr hname)]
      exact h.use hname _

include hlevel

/-- A read of an unknown name is a defect, and makes the name known. -/
theorem read_unknown (h : InBody e known found st) {token : Token} (hglobal : ¬ superglobals.contains token.text)
    (hunknown : ¬ known token.text) :
    InBody e (addName token.text known) (⟨token, .error, .undefined⟩ :: found) (ctx.perform (.read token) st) := by
  obtain ⟨hmode, hdepth, hdeclares⟩ := h.view
  have hpredefined : ctx.isPredefined st 0 token.text = false := by
    simpa [ScanContext.isPredefined, hdepth] using hglobal
  rw [h.perform_read hscope, ScanContext.check, hpredefined, if_neg Bool.false_ne_true,
    if_neg (fun hdeclared => hunknown ((hdeclares _).mp hdeclared)), hmode]
  exact (h.report hlevel token .undefined).assignWith token fun _ => rfl

end InBody

end StraightLine

end Unassigned
