import Unassigned.Proofs.Destructuring
import Unassigned.Proofs.RightSide

/-!
# `Proofs.LoopAssignments` — what a loop makes known beforehand

At the keyword of a loop every variable that is plainly assigned in the loop becomes known in the current scope. It
is said here which variables these are (`LoopAssignment`), where a loop ends whose body follows a colon
(`loopEnd?_eq_some_iff`), and what the names mean for the rest of the scan: the scope never reports them as missing,
not even where the read stands before the assignment.

A variable counts as a target of a `foreach` by its neighbours alone (`StandsAsTarget`). The value behind the arrow
of a key that has an index is missed by this, and it is not bound either (`indexedKey_value_reported`).
-/

namespace Unassigned

/-! ## Balanced words -/

/-- Places at which openings and closings are **balanced** like parentheses; other places do not matter. -/
inductive BalancedPlaces (opens closes : Nat → Prop) : List Nat → Prop where
  | nil : BalancedPlaces opens closes []
  | other {j : Nat} {rest : List Nat} :
      ¬ opens j → ¬ closes j → BalancedPlaces opens closes rest → BalancedPlaces opens closes (j :: rest)
  | nest {o c : Nat} {inner rest : List Nat} :
      opens o → BalancedPlaces opens closes inner → closes c → BalancedPlaces opens closes rest →
      BalancedPlaces opens closes (o :: inner ++ c :: rest)

/-- With `depth` openings before the last one unclosed, the place `e` closes the first of them. -/
def ClosesOuter (opens closes : Nat → Prop) : Nat → List Nat → Nat → Prop
  | 0, places, e => ∃ inner rest, places = inner ++ e :: rest ∧ BalancedPlaces opens closes inner ∧ closes e
  | depth + 1, places, e =>
    ∃ inner c rest, places = inner ++ c :: rest ∧ BalancedPlaces opens closes inner ∧ closes c
      ∧ ClosesOuter opens closes depth rest e

section

variable {opens closes : Nat → Prop} {depth e : Nat} {places : List Nat}

theorem ClosesOuter.other {j : Nat} (hopens : ¬ opens j) (hcloses : ¬ closes j)
    (h : ClosesOuter opens closes depth places e) : ClosesOuter opens closes depth (j :: places) e := by
  cases depth with
  | zero =>
      obtain ⟨inner, rest, rfl, hinner, hclose⟩ := h
      exact ⟨j :: inner, rest, rfl, .other hopens hcloses hinner, hclose⟩
  | succ depth =>
      obtain ⟨inner, c, rest, rfl, hinner, hclose, hrest⟩ := h
      exact ⟨j :: inner, c, rest, rfl, .other hopens hcloses hinner, hclose, hrest⟩

/-- One more opening in front makes a balanced word of what closes it. -/
theorem ClosesOuter.open {j : Nat} (hopens : opens j) (h : ClosesOuter opens closes (depth + 1) places e) :
    ClosesOuter opens closes depth (j :: places) e := by
  obtain ⟨inner, c, rest, rfl, hinner, hclose, hrest⟩ := h
  cases depth with
  | zero =>
      obtain ⟨inner', rest', rfl, hinner', hclose'⟩ := hrest
      exact ⟨j :: inner ++ c :: inner', rest', by simp, .nest hopens hinner hclose hinner', hclose'⟩
  | succ depth =>
      obtain ⟨inner', c', rest', rfl, hinner', hclose', hrest'⟩ := hrest
      exact ⟨j :: inner ++ c :: inner', c', rest', by simp, .nest hopens hinner hclose hinner', hclose', hrest'⟩

end

namespace TokenStream

variable {f : TokenStream}
variable {i : Nat}

/-! ## Loops whose body follows a colon -/

/-- **The keyword at `e` balances the loop at `i`**: between them the loops of this kind whose body follows a colon
    and the keywords that end such loops are balanced. -/
def BalancesLoop (f : TokenStream) (i e : Nat) : Prop :=
  i < e ∧ e < f.size ∧ loopEndKeyword? (f.kind i) = some (f.kind e)
    ∧ BalancedPlaces (fun j => f.kind j = f.kind i ∧ f.opensColonBody j) (fun j => f.kind j = f.kind e)
        (List.range' (i + 1) (e - (i + 1)))

section

variable {loop closing : Kind} (hne : loop ≠ closing)

include hne

/-- Balanced places are passed. -/
theorem colonBodyEnd?_of_balanced {inner : List Nat}
    (h : BalancedPlaces (fun j => f.kind j = loop ∧ f.opensColonBody j) (fun j => f.kind j = closing) inner)
    {depth : Nat} (hdepth : depth ≠ 0) (rest : List Nat) :
    f.colonBodyEnd? loop closing depth (inner ++ rest) = f.colonBodyEnd? loop closing depth rest := by
  induction h generalizing depth rest with
  | nil => rfl
  | @other j inner hopens hcloses _ ih =>
      rw [List.cons_append, colonBodyEnd?]
      split
      · next hloop =>
          have hcolon : f.opensColonBody j = false := by
            rw [Bool.eq_false_iff]
            exact fun hcolon => hopens ⟨eq_of_beq hloop, hcolon⟩
          rw [hcolon, if_neg Bool.false_ne_true]
          exact ih hdepth rest
      · rw [if_neg fun hclosing => hcloses (eq_of_beq hclosing)]
        exact ih hdepth rest
  | @nest o c inner rest' hopens _ hcloses _ ih ih' =>
      have hother : (f.kind c == loop) = false := by
        rw [hcloses]
        exact beq_eq_false_iff_ne.mpr (Ne.symm hne)
      rw [List.append_assoc, List.cons_append, colonBodyEnd?, hopens.1, beq_self_eq_true, if_pos rfl, if_pos hopens.2,
        ih (show depth + 1 ≠ 0 by omega), List.cons_append, colonBodyEnd?, hother, if_neg Bool.false_ne_true, hcloses,
        beq_self_eq_true, if_pos rfl, if_neg (by omega), Nat.add_sub_cancel]
      exact ih' hdepth rest

/-- What the search finds closes the first opening. -/
theorem closesOuter_of_colonBodyEnd? {depth e : Nat} {places : List Nat}
    (h : f.colonBodyEnd? loop closing (depth + 1) places = some e) :
    ClosesOuter (fun j => f.kind j = loop ∧ f.opensColonBody j) (fun j => f.kind j = closing) depth places e := by
  induction places generalizing depth with
  | nil => cases h
  | cons j places ih =>
      rw [colonBodyEnd?] at h
      split at h
      · next hloop =>
          have hother : f.kind j ≠ closing := fun hclosing => hne ((eq_of_beq hloop).symm.trans hclosing)
          by_cases hcolon : f.opensColonBody j
          · rw [if_pos hcolon] at h
            exact (ih h).open ⟨eq_of_beq hloop, hcolon⟩
          · rw [if_neg hcolon] at h
            exact (ih h).other (fun hopens => hcolon hopens.2) hother
      · next hloop =>
          have hnot : ¬ (f.kind j = loop ∧ f.opensColonBody j) := fun hopens => hloop (beq_iff_eq.mpr hopens.1)
          split at h
          · next hclosing =>
              cases depth with
              | zero =>
                  obtain rfl : j = e := by simpa using h
                  exact ⟨[], places, rfl, .nil, eq_of_beq hclosing⟩
              | succ depth =>
                  rw [if_neg (by omega), Nat.add_sub_cancel] at h
                  exact ⟨[], j, places, rfl, .nil, eq_of_beq hclosing, ih h⟩
          · next hclosing => exact (ih h).other hnot fun heq => hclosing (beq_iff_eq.mpr heq)

theorem colonBodyEnd?_eq_some_iff {e : Nat} {places : List Nat} :
    f.colonBodyEnd? loop closing 1 places = some e ↔ ∃ inner rest, places = inner ++ e :: rest
      ∧ BalancedPlaces (fun j => f.kind j = loop ∧ f.opensColonBody j) (fun j => f.kind j = closing) inner
      ∧ f.kind e = closing := by
  constructor
  · exact closesOuter_of_colonBodyEnd? hne
  · rintro ⟨inner, rest, rfl, hinner, hclosing⟩
    have hother : (f.kind e == loop) = false := by
      rw [hclosing]
      exact beq_eq_false_iff_ne.mpr (Ne.symm hne)
    rw [colonBodyEnd?_of_balanced hne hinner (by decide), colonBodyEnd?, hother, if_neg Bool.false_ne_true, hclosing,
      beq_self_eq_true, if_pos rfl, if_pos rfl]

end

theorem opensColonBody_iff : f.opensColonBody i ↔ ∃ paren colon, f.next? i = some paren
    ∧ f.kind paren = .char '(' ∧ f.next? (f.skipGroup paren) = some colon ∧ f.kind colon = .char ':' := by
  simp [opensColonBody, nextIs, Option.any_eq_true, isChar_iff]

/-- The search for the end of a loop whose body follows a colon starts behind the keyword, with one loop open. -/
theorem loopEnd?_of_colon (hcolon : f.opensColonBody i) {closing : Kind}
    (hclosing : loopEndKeyword? (f.kind i) = some closing) :
    f.loopEnd? i = f.colonBodyEnd? (f.kind i) closing 1 (List.range' (i + 1) (f.size - (i + 1))) := by
  obtain ⟨paren, colon, hnext, hparen, hnext', hkind⟩ := opensColonBody_iff.mp hcolon
  have hdo : (f.kind i == .keyword .doWord) = false := by
    rw [beq_eq_false_iff_ne]
    intro hdo
    rw [hdo] at hclosing
    cases hclosing
  have hi : i < f.size := Nat.lt_trans (f.next?_bounds hnext).1 (f.next?_bounds hnext).2
  have hplaces : placesBetween i (f.size - 1) = i :: List.range' (i + 1) (f.size - (i + 1)) := by
    rw [placesBetween, show f.size - 1 + 1 - i = f.size - (i + 1) + 1 by omega, List.range'_succ]
  have hend : f.loopEnd? i = f.colonBodyEnd? (f.kind i) closing 0 (placesBetween i (f.size - 1)) := by
    rw [loopEnd?, hdo, if_neg Bool.false_ne_true, headedLoopEnd?, hnext]
    simp [isChar_iff.mpr hparen, hnext', isChar_iff, hkind, hclosing]
  rw [hend, hplaces, colonBodyEnd?, beq_self_eq_true, if_pos rfl, if_pos hcolon]

/-- **Where a loop ends whose body follows a colon**: at the keyword that balances it, if there is one. -/
theorem loopEnd?_eq_some_iff {e : Nat} (hcolon : f.opensColonBody i) {closing : Kind}
    (hclosing : loopEndKeyword? (f.kind i) = some closing) : f.loopEnd? i = some e ↔ f.BalancesLoop i e := by
  have hne : f.kind i ≠ closing := by
    intro heq
    rw [heq] at hclosing
    unfold loopEndKeyword? at hclosing
    split at hclosing <;> cases hclosing
  rw [loopEnd?_of_colon hcolon hclosing, colonBodyEnd?_eq_some_iff hne]
  constructor
  · rintro ⟨inner, rest, hplaces, hinner, hkind⟩
    obtain ⟨k, hk, rfl, htail⟩ := List.range'_eq_append_iff.mp hplaces
    rw [Nat.mul_one] at htail
    obtain ⟨rfl, hpos, _⟩ := List.range'_eq_cons_iff.mp htail.symm
    have hlength : i + 1 + k - (i + 1) = k := Nat.add_sub_cancel_left _ _
    exact ⟨by omega, by omega, by rw [hclosing, hkind], by rwa [hlength, hkind]⟩
  · rintro ⟨hie, he, hkind, hinner⟩
    obtain rfl : closing = f.kind e := Option.some.inj (hclosing.symm.trans hkind)
    refine ⟨_, List.range' (e + 1) (f.size - (e + 1)), ?_, hinner, rfl⟩
    refine List.range'_eq_append_iff.mpr ⟨e - (i + 1), by omega, rfl, ?_⟩
    rw [Nat.mul_one, show i + 1 + (e - (i + 1)) = e by omega,
      show f.size - (i + 1) - (e - (i + 1)) = f.size - (e + 1) + 1 by omega, List.range'_succ]

/-! ## Targets of a `foreach`, by their neighbours -/

/-- **The variable at `j` stands as a target of a `foreach`**: behind the keyword `as`, or behind the arrow of a key
    that is a variable without index behind that keyword. An ampersand may stand before it. -/
inductive StandsAsTarget (f : TokenStream) (j : Nat) : Prop where
  | first {s b : Nat} : f.kind s = .keyword .asWord → f.next? s = some b → f.Referenced b j → StandsAsTarget f j
  | second {s key p b : Nat} : f.kind s = .keyword .asWord → f.next? s = some key → f.kind key = .var →
      f.next? key = some p → f.kind p = .doubleArrow → f.next? p = some b → f.Referenced b j → StandsAsTarget f j

/-- What stands before a target leads to it. -/
theorem exists_of_beforeTarget? {p j : Nat} (h : f.beforeTarget? j = some p) (hvar : f.kind j = .var) :
    ∃ b, f.next? p = some b ∧ f.Referenced b j := by
  have hsig : (f.token j).isTrivial = false := isTrivial_of_kind hvar rfl
  have hj : j < f.size := lt_size_of_kind (by simp [hvar])
  unfold beforeTarget? at h
  cases hprev : f.prev? j with
  | none =>
      rw [hprev] at h
      cases h
  | some q =>
      rw [hprev] at h
      have hnext := next?_of_prev? hprev hsig hj
      dsimp only at h
      split at h
      · next hampersand =>
          obtain ⟨hlt, hsig', _⟩ := prev?_bounds hprev
          exact ⟨q, next?_of_prev? h hsig' (by omega), .inr ⟨isChar_iff.mp hampersand, hnext⟩⟩
      · obtain rfl := Option.some.inj h
        exact ⟨j, hnext, .inl rfl⟩

theorem isForeachTarget_iff {j : Nat} (hvar : f.kind j = .var) : f.isForeachTarget j ↔ f.StandsAsTarget j := by
  have hsize : ∀ {i : Nat}, f.kind i = .var ∨ f.kind i = .doubleArrow → i < f.size ∧ (f.token i).isTrivial = false := by
    intro i hi
    rcases hi with hi | hi
    · exact ⟨lt_size_of_kind (by simp [hi]), isTrivial_of_kind hi rfl⟩
    · exact ⟨lt_size_of_kind (by simp [hi]), isTrivial_of_kind hi rfl⟩
  have hunfold : f.isForeachTarget j ↔ ∃ p, f.beforeTarget? j = some p ∧ (f.kind p = .keyword .asWord
      ∨ f.kind p = .doubleArrow ∧ ∃ key, f.prev? p = some key ∧ f.kind key = .var
        ∧ ∃ s, f.prev? key = some s ∧ f.kind s = .keyword .asWord) := by
    simp [isForeachTarget, Option.any_eq_true, prevIs]
  rw [hunfold]
  constructor
  · rintro ⟨p, hp, hcases⟩
    obtain ⟨b, hnext, href⟩ := exists_of_beforeTarget? hp hvar
    rcases hcases with has | ⟨harrow, key, hkey, hkeyVar, s, hs, has⟩
    · exact .first has hnext href
    · obtain ⟨hsizeKey, hsigKey⟩ := hsize (.inl hkeyVar)
      obtain ⟨hsizeArrow, hsigArrow⟩ := hsize (.inr harrow)
      exact .second has (next?_of_prev? hs hsigKey hsizeKey) hkeyVar (next?_of_prev? hkey hsigArrow hsizeArrow) harrow
        hnext href
  · intro h
    cases h with
    | @first s b has hnext href =>
        have hsig : (f.token s).isTrivial = false := isTrivial_of_kind has rfl
        exact ⟨s, href.beforeTarget?_eq hnext hsig (by simp [has]), .inl has⟩
    | @second s key p b has hkey hkeyVar hp harrow hnext href =>
        have hsig : (f.token s).isTrivial = false := isTrivial_of_kind has rfl
        exact ⟨p, href.beforeTarget?_eq hnext (hsize (.inr harrow)).2 (by simp [harrow]), .inr ⟨harrow, key,
          prev?_of_next? hp (hsize (.inl hkeyVar)).2, hkeyVar, s, prev?_of_next? hkey hsig, has⟩⟩

end TokenStream

/-- **A variable that is plainly assigned in a loop**: it belongs to the same function as the keyword of the loop,
    stands neither directly in a class body nor behind a dollar sign or an operator of access, and is followed by an
    equals sign or stands as a target of a `foreach`. -/
structure SourceFile.LoopAssignment (f : SourceFile) (loop j : Nat) : Prop where
  isVariable : f.kind j = .var
  sameFunction : f.functionAt? j = f.functionAt? loop
  notInClassBody : f.inClassBody j = false
  notMember : ∀ p, f.prev? j = some p → f.kind p ∉ [.char '$', .arrow, .nullsafeArrow, .doubleColon]
  assigned : (∃ q, f.next? j = some q ∧ f.kind q = .char '=') ∨ f.StandsAsTarget j

theorem Kind.isMemberAccess_iff {kind : Kind} :
    kind.isMemberAccess ↔ kind = .arrow ∨ kind = .nullsafeArrow ∨ kind = .doubleColon := by
  cases kind <;> simp [isMemberAccess]

theorem SourceFile.isLoopAssignment_iff {f : SourceFile} {loop j : Nat} :
    f.isLoopAssignment loop j ↔ f.LoopAssignment loop j := by
  have hmember : f.prevAny j (fun kind => kind == .char '$' || kind.isMemberAccess) = false
      ↔ ∀ p, f.prev? j = some p → f.kind p ∉ [.char '$', .arrow, .nullsafeArrow, .doubleColon] := by
    unfold TokenStream.prevAny
    cases f.prev? j with
    | none => simp
    | some p => simp [← Kind.isMemberAccess_iff]
  have hequals : f.nextIs j '=' ↔ ∃ q, f.next? j = some q ∧ f.kind q = .char '=' := by
    simp [TokenStream.nextIs, Option.any_eq_true, TokenStream.isChar_iff]
  unfold isLoopAssignment
  simp only [Bool.and_eq_true, Bool.or_eq_true, Bool.not_eq_true', beq_iff_eq]
  constructor
  · rintro ⟨⟨⟨⟨hvar, hfunction⟩, hclass⟩, hprev⟩, hassigned⟩
    refine ⟨hvar, hfunction, hclass, hmember.mp hprev, ?_⟩
    exact hassigned.imp hequals.mp (TokenStream.isForeachTarget_iff hvar).mp
  · rintro ⟨hvar, hfunction, hclass, hprev, hassigned⟩
    refine ⟨⟨⟨⟨hvar, hfunction⟩, hclass⟩, hmember.mpr hprev⟩, ?_⟩
    exact hassigned.imp hequals.mpr (TokenStream.isForeachTarget_iff hvar).mpr

/-! ## What becomes known -/

namespace ScanState

variable {st : ScanState}

/-- A declaration changes nothing but the names of the current scope. -/
theorem frames_declare (hdepth : 0 < st.scopes.depth) (token : Token) :
    (st.declare 0 token).scopes.frames.tail = st.scopes.frames.tail
      ∧ (st.declare 0 token).scopes.depth = st.scopes.depth
      ∧ (∀ name, (st.declare 0 token).scopes.declares 0 name ↔ st.scopes.declares 0 name ∨ name = token.text)
      ∧ (∀ name, name ≠ token.text ∨ st.scopes.declares 0 name →
          (st.declare 0 token).scopes.find? 0 name = st.scopes.find? 0 name) := by
  unfold declare
  split
  · next hknown =>
      refine ⟨rfl, rfl, fun name => (or_iff_left_of_imp ?_).symm, fun _ _ => rfl⟩
      rintro rfl
      exact hknown
  · next hunknown =>
      refine ⟨?_, st.depth_assign 0 token, fun name => ScopeStack.declares_assigned hdepth token, ?_⟩
      · obtain ⟨top, below, hframes⟩ := List.exists_cons_of_length_pos hdepth
        have hnew : ¬ top.declares token.text := by
          rwa [ScopeStack.declares, ScopeStack.frame?, hframes] at hunknown
        show ((st.scopes.assigned token).frames).tail = _
        rw [ScopeStack.frames_assigned, hframes, touchVariable, if_neg hnew]
        rfl
      · rintro name hname
        apply ScopeStack.find?_assigned_of_ne
        rintro rfl
        rcases hname with hname | hname
        · exact hname rfl
        · exact hunknown hname

end ScanState

namespace ScanContext

variable (ctx : ScanContext)

/-- **Declarations, one after the other**: the names become known in the current scope, and what was known before
    stays as it is. -/
theorem execute_declares (tokens : List Token) {st : ScanState} (hdepth : 0 < st.scopes.depth)
    (hresolved : Resolved st.scopes.frames) :
    let after := ctx.execute (tokens.map .declare) st
    after.scopes.frames.tail = st.scopes.frames.tail ∧ after.scopes.depth = st.scopes.depth
      ∧ (∀ name, after.scopes.declares 0 name ↔ st.scopes.declares 0 name ∨ name ∈ tokens.map Token.text)
      ∧ (∀ name, st.scopes.declares 0 name → after.scopes.find? 0 name = st.scopes.find? 0 name)
      ∧ ∀ name ∈ tokens.map Token.text, ¬ st.scopes.declares 0 name →
          (after.scopes.find? 0 name).map Variable.status = some .assigned := by
  induction tokens generalizing st with
  | nil => exact ⟨rfl, rfl, fun name => by simp, fun _ _ => rfl, by simp⟩
  | cons token tokens ih =>
      obtain ⟨htail, hsame, hdeclares, hfind⟩ := ScanState.frames_declare hdepth token
      have hresolved' : Resolved (st.declare 0 token).scopes.frames := ctx.resolved_perform (.declare token) hresolved
      obtain ⟨htail', hsame', hdeclares', hfind', hassigned'⟩ := ih (by rwa [hsame]) hresolved'
      intro after
      have hafter : after = ctx.execute (tokens.map .declare) (st.declare 0 token) := rfl
      rw [hafter]
      refine ⟨htail'.trans htail, hsame'.trans hsame, fun name => ?_, fun name hname => ?_, fun name hname hnew => ?_⟩
      · rw [hdeclares', hdeclares, List.map_cons, List.mem_cons, or_assoc]
      · rw [hfind' name ((hdeclares name).mpr (.inl hname)), hfind name (.inr hname)]
      · by_cases heq : name = token.text
        · -- the first declaration assigns the variable, and the later ones leave it
          subst heq
          rw [hfind' token.text ((hdeclares _).mpr (.inr rfl)), ScanState.declare, if_neg hnew]
          exact ScopeStack.status_assigned hdepth hresolved token
        · have hrest : name ∈ tokens.map Token.text := by simpa [heq] using hname
          exact hassigned' name hrest fun hknown => hnew (((hdeclares name).mp hknown).resolve_right heq)

/-- The step at the keyword of a loop starts with the declarations. -/
theorem commands_loop {i e : Nat} (hloop : TokenStream.isLoopKeyword (ctx.file.kind i))
    (hend : ctx.file.loopEnd? i = some e) (types : List (String × String)) :
    ∃ more, (ctx.dispatch types i).commands = ctx.file.predeclare i e ++ more := by
  have hhandle : (ctx.dispatch types i).commands = (ctx.file.handleLoop i).commands := by
    unfold TokenStream.isLoopKeyword at hloop
    split at hloop
    case h_5 => cases hloop
    all_goals
      next hkind =>
        rw [ctx.dispatch_of_keyword hkind]
        exact Plan.bind_return_commands _ _
  rw [hhandle, SourceFile.handleLoop, Plan.bind_of_ok (Plan.result_emitAll _), hend]
  exact ⟨_, rfl⟩

variable {ctx}

theorem lt_size_of_isLoopKeyword {i : Nat} (h : TokenStream.isLoopKeyword (ctx.file.kind i)) : i < ctx.file.size := by
  apply TokenStream.lt_size_of_kind
  intro hkind
  rw [hkind] at h
  cases h

/-- The moment after the declarations of a loop. -/
theorem StepAt.stateAt_declared {t n i e : Nat} (h : ctx.StepAt t n i)
    (hloop : TokenStream.isLoopKeyword (ctx.file.kind i)) (hend : ctx.file.loopEnd? i = some e) :
    ctx.stateAt (n + 3 + (ctx.file.predeclare i e).length)
      = ctx.execute (ctx.file.predeclare i e) (ctx.arrive i (ctx.stateAt n)) := by
  have hi := lt_size_of_isLoopKeyword hloop
  obtain ⟨more, hcommands⟩ := ctx.commands_loop hloop hend (ctx.arrive i (ctx.stateAt n)).currentTypes
  have hplan : (ctx.plan i (ctx.stateAt n)).commands = (arrival i ++ ctx.file.predeclare i e) ++ more := by
    rw [ctx.commands_plan, hcommands, List.append_assoc]
  have hlength : (arrival i ++ ctx.file.predeclare i e).length = 3 + (ctx.file.predeclare i e).length :=
    List.length_append
  have hle : (arrival i ++ ctx.file.predeclare i e).length ≤ (ctx.plan i (ctx.stateAt n)).commands.length := by
    rw [hplan]
    exact (List.prefix_append _ more).length_le
  rw [Nat.add_assoc, ← hlength, h.stateAt_add hi hle, hplan, List.take_left, ctx.execute_append]
  rfl

end ScanContext

/-- The tokens of the variables that are plainly assigned in a loop. -/
def SourceFile.assignedTokens (f : SourceFile) (loop last : Nat) : List Token :=
  ((placesBetween loop last).filter (f.isLoopAssignment loop)).map f.token

theorem SourceFile.predeclare_eq (f : SourceFile) (loop last : Nat) :
    f.predeclare loop last = (f.assignedTokens loop last).map .declare := by
  rw [assignedTokens, List.map_map]
  rfl

theorem SourceFile.mem_assignedTokens {f : SourceFile} {loop last : Nat} {name : String} :
    name ∈ (f.assignedTokens loop last).map Token.text
      ↔ ∃ j, loop ≤ j ∧ j ≤ last ∧ f.LoopAssignment loop j ∧ f.text j = name := by
  rw [assignedTokens, List.map_map, List.mem_map]
  constructor
  · rintro ⟨j, hj, rfl⟩
    obtain ⟨hplace, hassigned⟩ := List.mem_filter.mp hj
    have hbounds := List.mem_range'_1.mp hplace
    exact ⟨j, hbounds.1, by omega, isLoopAssignment_iff.mp hassigned, rfl⟩
  · rintro ⟨j, hfirst, hlast, hassigned, rfl⟩
    have hplace : j ∈ placesBetween loop last := List.mem_range'_1.mpr ⟨hfirst, by omega⟩
    exact ⟨j, List.mem_filter.mpr ⟨hplace, isLoopAssignment_iff.mpr hassigned⟩, rfl⟩

/-- **What a loop makes known beforehand.** For the scan of any file with any settings. A loop whose body follows a
    colon ends at the keyword that balances it, and has no end if there is none. At the keyword of a loop that ends
    at `e`, the names that become known in the current scope are those of the variables between the keyword and `e`
    that are plainly assigned in the loop. What the scope knew before is left untouched, and so are the scopes
    around it. From then on the scope never reports one of these names as missing. -/
theorem loop_makes_assigned_known (ctx : ScanContext) :
    (∀ i e, ctx.file.opensColonBody i → (TokenStream.loopEndKeyword? (ctx.file.kind i)).isSome →
      (ctx.file.loopEnd? i = some e ↔ ctx.file.BalancesLoop i e))
    ∧ ∀ t n i e, ctx.StepAt t n i → TokenStream.isLoopKeyword (ctx.file.kind i) → ctx.file.loopEnd? i = some e →
      let before := ctx.arrive i (ctx.stateAt n)
      let m := n + 3 + (ctx.file.predeclare i e).length
      let after := ctx.stateAt m
      let assigned := fun name => ∃ j, i ≤ j ∧ j ≤ e ∧ ctx.file.LoopAssignment i j ∧ ctx.file.text j = name
      after = ctx.execute (ctx.file.predeclare i e) before
      -- the names that are added, and the variables behind them
      ∧ (∀ name, after.scopes.declares 0 name ↔ before.scopes.declares 0 name ∨ assigned name)
      ∧ (∀ name, assigned name → ¬ before.scopes.declares 0 name →
          (after.scopes.find? 0 name).map Variable.status = some .assigned)
      -- what is left untouched
      ∧ (∀ name, before.scopes.declares 0 name → after.scopes.find? 0 name = before.scopes.find? 0 name)
      ∧ after.scopes.frames.tail = before.scopes.frames.tail
      -- and the reports of the scope from then on
      ∧ ∀ k c d, m ≤ k → ctx.StaysOpen (before.scopes.depth - 1) m k → ctx.ActsAt k c (before.scopes.depth - 1) →
          ctx.ReportsAt k d → d.finding.isMissing → ¬ assigned d.token.text := by
  constructor
  · intro i e hcolon hclosing
    obtain ⟨closing, hclosing⟩ := Option.isSome_iff_exists.mp hclosing
    exact TokenStream.loopEnd?_eq_some_iff hcolon hclosing
  · intro t n i e h hloop hend before m after assigned
    have hi := ScanContext.lt_size_of_isLoopKeyword hloop
    have hafter : after = ctx.execute (ctx.file.predeclare i e) before := h.stateAt_declared hloop hend
    have hbefore : before = ctx.stateAt (n + 3) := (h.stateAt_arrived hi).symm
    have hdepth : 0 < before.scopes.depth := by
      rw [hbefore]
      exact ctx.depth_stateAt (n + 3)
    have hresolved : Resolved before.scopes.frames := by
      rw [hbefore]
      exact ctx.stateAt_resolved (n + 3)
    obtain ⟨htail, hsame, hdeclares, hfind, hstatus⟩ :=
      ctx.execute_declares (ctx.file.assignedTokens i e) hdepth hresolved
    rw [← SourceFile.predeclare_eq, ← hafter] at htail hsame hdeclares hfind hstatus
    have hnames : ∀ name, after.scopes.declares 0 name ↔ before.scopes.declares 0 name ∨ assigned name := by
      intro name
      rw [hdeclares name, SourceFile.mem_assignedTokens]
    refine ⟨hafter, hnames, ?_, hfind, htail, ?_⟩
    · exact fun name hname hnew => hstatus name (SourceFile.mem_assignedTokens.mpr hname) hnew
    · intro k c d hmk hopen hacts hreports hmissing hassigned
      have hknown : ctx.KnownAt m (before.scopes.depth - 1) d.token.text := by
        have hdeclared := (hnames d.token.text).mpr (.inr hassigned)
        rwa [ScopeStack.declares_iff_knows (by rwa [hsame]), hsame, Nat.sub_zero] at hdeclared
      obtain ⟨_, hunknown, _⟩ := ctx.unknown_of_reportsAt hreports hmissing hacts
      exact hunknown (ctx.knownAt_of_staysOpen hmk hopen hknown)

namespace Linter

/-- A read before the assignment in a loop, with another loop between them. -/
def readBeforeAssignment : String :=
  "<?php function f($n) \x7b while ($n): echo $x; foreach ($n as $k => &$v): endforeach; $x = 1; endwhile; \x7d"

theorem readBeforeAssignment_run : ∃ file, SourceFile.ofSource "f.php" readBeforeAssignment = .ok file
    ∧ let ctx := warnings.context file
      ctx.StepAt 3 12 10 ∧ file.kind 10 = .keyword .whileWord ∧ file.opensColonBody 10
      ∧ file.loopEnd? 10 = some 48 ∧ (file.predeclare 10 48).length = 3
      ∧ ¬ (ctx.arrive 10 (ctx.stateAt 12)).scopes.declares 0 "$x"
      ∧ (ctx.stateAt 18).scopes.declares 0 "$x" ∧ (ctx.stateAt 18).scopes.declares 0 "$v"
      ∧ (warnings.lintSource "f.php" readBeforeAssignment).toOption = some [] :=
  exists_ok_of_decide (by decide +kernel)

/-- The loop ends at its own end keyword, and the variable that is read first is known from the start. -/
theorem readBeforeAssignment_silent : ∃ file, SourceFile.ofSource "f.php" readBeforeAssignment = .ok file
    ∧ let ctx := warnings.context file
      ctx.StepAt 3 12 10 ∧ file.BalancesLoop 10 48
      ∧ (∃ j, 10 ≤ j ∧ j ≤ 48 ∧ file.LoopAssignment 10 j ∧ file.text j = "$x")
      ∧ ((ctx.stateAt 18).scopes.find? 0 "$x").map Variable.status = some .assigned
      ∧ (warnings.lintSource "f.php" readBeforeAssignment).toOption = some [] := by
  obtain ⟨file, hfile, hstep, hkind, hcolon, hend, hlength, hnew, hx, _, hsilent⟩ := readBeforeAssignment_run
  have hloop : TokenStream.isLoopKeyword (file.kind 10) := by
    rw [hkind]
    rfl
  have hclosing : (TokenStream.loopEndKeyword? (file.kind 10)).isSome := by
    rw [hkind]
    rfl
  obtain ⟨hbalances, hknown⟩ := loop_makes_assigned_known (warnings.context file)
  obtain ⟨_, hnames, hstatus, _⟩ := hknown 3 12 10 48 hstep hloop hend
  rw [show (warnings.context file).file.predeclare 10 48 = file.predeclare 10 48 from rfl, hlength] at hnames hstatus
  have hassigned := ((hnames "$x").mp hx).resolve_left hnew
  exact ⟨file, hfile, hstep, (hbalances 10 48 hcolon hclosing).mp hend, hassigned, hstatus "$x" hassigned hnew, hsilent⟩

/-- A `foreach` whose key has an index. -/
def indexedKey : String :=
  "<?php function f($rows, $ks) \x7b foreach ($rows as $ks[0] => $v) \x7b echo $v; \x7d \x7d"

theorem indexedKey_run : ∃ file, SourceFile.ofSource "f.php" indexedKey = .ok file
    ∧ let ctx := warnings.context file
      ctx.StepAt 3 13 13 ∧ file.kind 13 = .keyword .foreachWord ∧ file.next? 13 = some 15
      ∧ file.closer? 15 = some 28 ∧ file.kind 18 = .keyword .asWord ∧ file.afterIndexes 20 = (some 25, true)
      ∧ file.kind 25 = .doubleArrow ∧ file.next? 25 = some 27 ∧ file.next? 27 = some 28
      ∧ file.loopEnd? 13 = some 37 ∧ file.functionAt? 27 = file.functionAt? 13 ∧ ¬ file.isLoopAssignment 13 27
      ∧ ¬ (ctx.after 13 (ctx.stateAt 13)).scopes.declares 0 "$v"
      ∧ (warnings.lintSource "f.php" indexedKey).toOption = some [⟨⟨.var, "$v", 1, 27⟩, .error, .undefined⟩] :=
  exists_ok_of_decide (by decide +kernel)

/-- **The value behind a key with an index** is the last thing in the head of the `foreach`, so it is a target. It is
    not made known, neither beforehand nor as a target, and it is reported. -/
theorem indexedKey_value_reported : ofSettings { level := "warning" } [] = .ok warnings
    ∧ (warnings.lintSource "f.php" indexedKey).toOption = some [⟨⟨.var, "$v", 1, 27⟩, .error, .undefined⟩]
    ∧ ∃ file, SourceFile.ofSource "f.php" indexedKey = .ok file
      ∧ let ctx := warnings.context file
        ctx.StepAt 3 13 13 ∧ file.kind 13 = .keyword .foreachWord ∧ file.next? 13 = some 15 ∧ file.closer? 15 = some 28
        ∧ file.kind 18 = .keyword .asWord ∧ file.afterIndexes 20 = (some 25, true) ∧ file.kind 25 = .doubleArrow
        ∧ file.next? 25 = some 27 ∧ file.next? 27 = some 28 ∧ file.loopEnd? 13 = some 37
        ∧ ¬ file.LoopAssignment 13 27 ∧ ¬ (ctx.after 13 (ctx.stateAt 13)).scopes.declares 0 "$v" := by
  obtain ⟨file, hfile, hstep, hforeach, hparen, hclose, has, hkey, harrow, hvalue, hlast, hend, _, hnot, hunknown,
    hreport⟩ := indexedKey_run
  refine ⟨by rfl, hreport, file, hfile, hstep, hforeach, hparen, hclose, has, hkey, harrow, hvalue, hlast, hend, ?_,
    hunknown⟩
  exact fun hassigned => hnot (SourceFile.isLoopAssignment_iff.mpr hassigned)

end Linter

end Unassigned
