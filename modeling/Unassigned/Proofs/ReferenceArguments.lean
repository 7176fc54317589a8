import Unassigned.Proofs.ArgumentLists
import Unassigned.Proofs.Destructuring
import Unassigned.Proofs.Outcome
import Unassigned.Proofs.ReadReports
import Unassigned.Proofs.UnusedValues

/-!
# `Proofs.ReferenceArguments` — variables that a known function sets

The signature of a known function says which arguments it takes by reference. A variable in such a place, with or
without indexes, is assigned by the call, and its token is dealt with: no read of it is ever reported, though the
scan comes to the token again (`StepAt.index_ne_of_reportsAt`). Anything else in such a place is an error, but for an
ellipsis and a static property. `execute_passByReferences` gives the whole effect of these arguments on a state.

What a static property is, is said on the text as `StaticPropertyAt`. The class in front of the double colon can be
missing: `::$v` passes for a static property too.
-/

namespace Unassigned

namespace TokenStream

variable {f : TokenStream}
variable {isSkipped : Kind → Bool} {i first q paren : Nat} {signature : Signature}

/-! ## Arguments on the text -/

/-- **A static property** `Foo::$bar`: names, namespace separators and `static`, or none of them, before a double
    colon and a variable. -/
inductive StaticPropertyAt (f : TokenStream) : Nat → Prop where
  | access {i j : Nat} : f.kind i = .doubleColon → f.next? i = some j → f.kind j = .var → StaticPropertyAt f i
  | part {i j : Nat} : isClassReference (f.kind i) → f.next? i = some j → StaticPropertyAt f j → StaticPropertyAt f i

/-- The argument that starts at `first` stands at a by-reference position of the signature; the arguments open at
    `paren`. -/
def ByReference (f : TokenStream) (signature : Signature) (paren first : Nat) : Prop :=
  ∃ p ∈ signature.refs, (f.positionalArguments paren)[p.toNat]? = some first

/-- The argument at `first` is the variable at `q`, with an ampersand before it or without, and with indexes behind it
    or without. -/
def VariableArgument (f : TokenStream) (first q : Nat) : Prop :=
  f.withoutAmpersand first = some q ∧ f.kind q = .var
    ∧ ∃ e isIndexed inside, f.IndexedAt q e isIndexed inside ∧ f.isCharOf e [',', ')']

/-- The argument at `first`, without its ampersand, starts with the token at `q`, and that is nothing that could be
    passed by reference. -/
def OtherArgument (f : TokenStream) (first q : Nat) : Prop :=
  f.withoutAmpersand first = some q ∧ f.kind q ≠ .var ∧ f.kind q ≠ .ellipsis ∧ ¬ f.StaticPropertyAt q

/-- **The call sets the variable** at `q`. -/
def SetsVariable (f : TokenStream) (signature : Signature) (paren q : Nat) : Prop :=
  ∃ first, f.ByReference signature paren first ∧ f.VariableArgument first q

/-- **The call is given something else** than a variable, at `q`. -/
def RejectsArgument (f : TokenStream) (signature : Signature) (paren q : Nat) : Prop :=
  ∃ first, f.ByReference signature paren first ∧ f.OtherArgument first q

theorem skipKinds_of_not (h : ¬ isSkipped (f.kind i)) : f.skipKinds isSkipped i = some i :=
  if_neg h

theorem skipKinds_of_next {j : Nat} (h : isSkipped (f.kind i)) (hnext : f.next? i = some j) :
    f.skipKinds isSkipped i = f.skipKinds isSkipped j := by
  rw [skipKinds, if_pos h, search?_of_next hnext, skipKinds]
  by_cases hj : isSkipped (f.kind j)
  · simp [hj]
  · simp [hj]

theorem skipKinds_of_none (h : isSkipped (f.kind i)) (hnext : f.next? i = none) : f.skipKinds isSkipped i = none := by
  rw [skipKinds, if_pos h, search?_of_none hnext]

/-- **A static property is found** where there is one. -/
theorem isClassVariable_iff (i : Nat) : f.isClassVariable i ↔ f.StaticPropertyAt i := by
  by_cases hpart : isClassReference (f.kind i)
  · have hcolon : f.kind i ≠ .doubleColon := by
      intro hkind
      rw [hkind] at hpart
      cases hpart
    cases hnext : f.next? i with
    | none =>
        rw [isClassVariable, skipKinds_of_none hpart hnext]
        refine iff_of_false Bool.false_ne_true fun h => ?_
        cases h with
        | access hkind => exact hcolon hkind
        | part _ hnext' => cases hnext.symm.trans hnext'
    | some j =>
        have hsame : f.isClassVariable i = f.isClassVariable j := by
          rw [isClassVariable, isClassVariable, skipKinds_of_next hpart hnext]
        rw [hsame, isClassVariable_iff j]
        refine ⟨.part hpart hnext, fun h => ?_⟩
        cases h with
        | access hkind => exact absurd hkind hcolon
        | part _ hnext' hrest =>
            obtain rfl := Option.some.inj (hnext.symm.trans hnext')
            exact hrest
  · rw [isClassVariable, skipKinds_of_not hpart]
    dsimp only
    rw [Bool.and_eq_true, beq_iff_eq, Option.any_eq_true]
    constructor
    · rintro ⟨hkind, j, hnext, hvar⟩
      exact .access hkind hnext (eq_of_beq hvar)
    · intro h
      cases h with
      | access hkind hnext hvar => exact ⟨hkind, _, hnext, beq_iff_eq.mpr hvar⟩
      | part hpart' => exact absurd hpart' hpart
termination_by f.size - i
decreasing_by
  have hbounds := f.next?_bounds hnext
  omega

/-- The indexes behind a variable are groups, as every bracket has its partner. -/
theorem WellNested.indexedAt (hf : f.WellNested) (i : Nat) {e : Nat} (h : (f.afterIndexes i).1 = some e) :
    ∃ isIndexed inside, f.IndexedAt i e isIndexed inside := by
  rw [afterIndexes_eq] at h
  cases hnext : f.next? i with
  | none =>
      rw [hnext] at h
      cases h
  | some o =>
      rw [hnext] at h
      by_cases hopen : f.isChar o '['
      · obtain ⟨c, hgroup⟩ := hf.closes_of_isChar hopen rfl
        have hkind := isChar_iff.mp hopen
        have hclose : f.kind c = .char ']' := hf.kind_closer hgroup (by rw [hkind]; rfl)
        simp only [hopen, if_true, skipGroup_of_closer hgroup] at h
        obtain ⟨isIndexed, inside, hrest⟩ := hf.indexedAt c h
        exact ⟨true, _, .index hnext hkind hgroup hclose hrest⟩
      · simp only [hopen] at h
        obtain rfl : o = e := Option.some.inj h
        exact ⟨false, [], .bare hnext fun hkind => hopen (isChar_iff.mpr hkind)⟩
termination_by f.size - i
decreasing_by
  have hbounds := f.next?_bounds hnext
  have hlt := (closer?_eq_some.mp hgroup).2
  omega

/-! ## What becomes of an argument -/

/-- The variable that is set through an argument. -/
def target? (f : TokenStream) (first : Nat) : Option Nat :=
  (f.withoutAmpersand first).filter fun q =>
    f.kind q == .var && (f.afterIndexes q).1.any fun e => f.isCharOf e [',', ')']

/-- The token for which an argument is rejected. -/
def rejected? (f : TokenStream) (first : Nat) : Option Nat :=
  (f.withoutAmpersand first).filter fun q =>
    !(f.kind q == .var) && !(f.kind q == .ellipsis) && !f.isClassVariable q

theorem WellNested.target?_eq_some (hf : f.WellNested) : f.target? first = some q ↔ f.VariableArgument first q := by
  rw [target?, Option.filter_eq_some_iff, Bool.and_eq_true, beq_iff_eq, Option.any_eq_true, VariableArgument]
  refine and_congr_right fun _ => and_congr_right fun _ => ?_
  constructor
  · rintro ⟨e, he, hends⟩
    obtain ⟨isIndexed, inside, hindexed⟩ := hf.indexedAt q he
    exact ⟨e, isIndexed, inside, hindexed, hends⟩
  · rintro ⟨e, isIndexed, inside, hindexed, hends⟩
    exact ⟨e, congrArg Prod.fst hindexed.afterIndexes_eq, hends⟩

theorem rejected?_eq_some : f.rejected? first = some q ↔ f.OtherArgument first q := by
  rw [rejected?, Option.filter_eq_some_iff, OtherArgument, ← isClassVariable_iff]
  simp [and_assoc]

/-- The commands for the by-reference argument at a place. -/
theorem passByReference_eq (hsets : signature.doesNotInitialize = false) (first : Nat) :
    f.passByReference signature first
      = (f.target? first).toList.flatMap (fun q => [.assign (f.token q) .plain, .consume q])
        ++ (f.rejected? first).toList.map fun q => .rejectReference (f.token q) := by
  unfold passByReference target? rejected?
  cases f.withoutAmpersand first with
  | none => rfl
  | some q =>
      dsimp only
      by_cases hvar : f.kind q = .var
      · by_cases hends : (f.afterIndexes q).1.any fun e => f.isCharOf e [',', ')']
        · simp [Option.filter, hvar, hends, hsets]
        · simp [Option.filter, hvar, hends]
      · by_cases hellipsis : f.kind q = .ellipsis
        · simp [Option.filter, hellipsis]
        · cases hclass : f.isClassVariable q <;> simp [Option.filter, hvar, hellipsis, hclass]

/-! ## The by-reference arguments of a call -/

/-- The first tokens of the arguments at the by-reference positions. -/
def referenceArguments (f : TokenStream) (signature : Signature) (paren : Nat) : List Nat :=
  signature.refs.filterMap fun p => (f.positionalArguments paren)[p.toNat]?

theorem mem_referenceArguments : first ∈ f.referenceArguments signature paren ↔ f.ByReference signature paren first :=
  List.mem_filterMap

theorem ByReference.mem_arguments (h : f.ByReference signature paren first) : first ∈ f.arguments paren := by
  obtain ⟨p, _, hfirst⟩ := h
  exact List.mem_of_mem_filter (List.mem_of_getElem? hfirst)

theorem WellNested.mem_filterMap_target? (hf : f.WellNested) :
    q ∈ (f.referenceArguments signature paren).filterMap f.target? ↔ f.SetsVariable signature paren q := by
  simp only [List.mem_filterMap, hf.target?_eq_some, mem_referenceArguments, SetsVariable]

theorem mem_filterMap_rejected? :
    q ∈ (f.referenceArguments signature paren).filterMap f.rejected? ↔ f.RejectsArgument signature paren q := by
  simp only [List.mem_filterMap, rejected?_eq_some, mem_referenceArguments, RejectsArgument]

theorem SetsVariable.argumentAt (h : f.SetsVariable signature paren q) : f.ArgumentAt paren q := by
  obtain ⟨first, hfirst, hq, _⟩ := h
  exact ⟨first, hfirst.mem_arguments, hq⟩

/-- **All by-reference positions are looked at**, up to the last argument. -/
theorem passReferences_eq {positional : List Nat} {positions : List Int} (hascending : Ascending positions)
    (hpositions : ∀ p ∈ positions, 0 ≤ p) :
    f.passReferences signature positional positions
      = ⟨(positions.filterMap fun p => positional[p.toNat]?).flatMap (f.passByReference signature), .ok ()⟩ := by
  induction positions with
  | nil => rfl
  | cons position rest ih =>
      have hrest := List.pairwise_cons.mp hascending
      have hnonneg := hpositions position (List.mem_cons_self ..)
      unfold passReferences
      by_cases hle : (positional.length : Int) ≤ position
      · -- the positions after one beyond the last argument are beyond it too
        have hnone : (position :: rest).filterMap (fun p => positional[p.toNat]?) = [] := by
          rw [List.filterMap_eq_nil_iff]
          intro p hp
          rw [List.getElem?_eq_none_iff]
          rcases List.mem_cons.mp hp with rfl | hp
          · omega
          · have hlt := hrest.1 p hp
            omega
        rw [if_pos hle, hnone]
        rfl
      · have hlt : position.toNat < positional.length := by omega
        have hfirst : elementAt? positional position = some positional[position.toNat] := by
          unfold elementAt?
          dsimp only
          rw [if_neg (by omega), if_neg (by omega), List.getElem?_eq_getElem hlt]
        rw [if_neg hle, hfirst, List.filterMap_cons, List.getElem?_eq_getElem hlt]
        dsimp only
        rw [Plan.bind_of_ok (Plan.result_emitAll _),
          ih hrest.2 fun p hp => hpositions p (List.mem_cons_of_mem position hp)]
        rfl

/-- The by-reference arguments stand in the order of their positions. -/
theorem referenceArguments_ascending (hascending : Ascending signature.refs)
    (hpositions : ∀ p ∈ signature.refs, 0 ≤ p) (paren : Nat) :
    (f.referenceArguments signature paren).Pairwise (· < ·) := by
  have hpositional := List.pairwise_iff_getElem.mp (f.positionalArguments_ascending paren)
  have hrefs : signature.refs.Pairwise fun a b => 0 ≤ a ∧ a < b :=
    List.Pairwise.imp_of_mem (fun ha _ hlt => ⟨hpositions _ ha, hlt⟩) hascending
  refine List.Pairwise.filterMap _ (fun a b hab first hfirst other hother => ?_) hrefs
  obtain ⟨ha, rfl⟩ := List.getElem?_eq_some_iff.mp hfirst
  obtain ⟨hb, rfl⟩ := List.getElem?_eq_some_iff.mp hother
  exact hpositional _ _ ha hb (by omega)

/-- No token is rejected twice. -/
theorem nodup_rejected (hascending : Ascending signature.refs) (hpositions : ∀ p ∈ signature.refs, 0 ≤ p)
    (hparen : f.isChar paren '(') : ((f.referenceArguments signature paren).filterMap f.rejected?).Nodup := by
  have hfirsts := List.Pairwise.and_mem.mp (f.referenceArguments_ascending hascending hpositions paren)
  have hmark : ∀ first ∈ f.referenceArguments signature paren, ¬ f.prevIs first (.char '&') := by
    intro first hfirst
    have harguments := (mem_referenceArguments.mp hfirst).mem_arguments
    exact not_prevIs_of_prevAny (prevAny_of_mem_arguments hparen harguments) (by decide)
  refine List.Pairwise.filterMap _ (fun a b hab q hq q' hq' heq => ?_) hfirsts
  subst heq
  obtain ⟨ha, hb, hlt⟩ := hab
  have hsame := withoutAmpersand_inj (hmark a ha) (hmark b hb) (rejected?_eq_some.mp hq).1 (rejected?_eq_some.mp hq').1
  omega

/-- What a call of a known function does about its named arguments. -/
def passNamed (f : TokenStream) (signature : Signature) (paren : Nat) : List Command :=
  if signature.refs.isEmpty then [] else (f.namedArguments paren).flatMap f.passToUnknown

end TokenStream

theorem ReferenceArgument.mem {positional : List Nat} {positions : List Int} {first : Nat}
    (h : ReferenceArgument positional positions first) : first ∈ positional := by
  induction h with
  | @here position _ _ _ hfirst =>
      unfold elementAt? at hfirst
      generalize (if position < 0 then positional.length + position else position) = place at hfirst
      dsimp only at hfirst
      split at hfirst
      · cases hfirst
      · exact List.mem_of_getElem? hfirst
  | later _ _ _ ih => exact ih

theorem TokenStream.kind_useKeyword? {f : TokenStream} {keyword close word : Nat}
    (h : f.useKeyword? keyword close = some word) : f.kind word = .keyword .useWord := by
  unfold useKeyword? at h
  split at h
  · cases h
  · exact eq_of_beq (Option.filter_eq_some_iff.mp h).2

namespace ScanContext

variable {ctx : ScanContext} {types : List (String × String)} {i paren : Nat} {signature : Signature} {c : Command}

/-! ## What a call does -/

/-- The defect of an argument that cannot be passed by reference. -/
def nonVariable (token : Token) : Defect :=
  ⟨token, .error, .nonVariableByReference⟩

theorem report_error (token : Token) (finding : Finding) (st : ScanState) :
    ctx.report token .error finding st = { st with defects := ⟨token, .error, finding⟩ :: st.defects } := by
  have hlevel : Severity.error.atLeast ctx.level := by
    cases ctx.level <;> rfl
  rw [report, if_pos hlevel]

/-- One by-reference argument: its variable is assigned and dealt with, or it is rejected. -/
theorem execute_passByReference (hsets : signature.doesNotInitialize = false) (first : Nat) (st : ScanState) :
    ctx.execute (ctx.file.passByReference signature first) st
      = { st with
          scopes := st.scopes.assignAll ((ctx.file.target? first).toList.map ctx.file.token)
          consumed := (ctx.file.target? first).toList.reverse ++ st.consumed
          defects := ((ctx.file.rejected? first).toList.map fun q => nonVariable (ctx.file.token q)).reverse
            ++ st.defects } := by
  rw [TokenStream.passByReference_eq hsets, ctx.execute_append]
  cases ctx.file.rejected? first with
  | none => cases ctx.file.target? first <;> rfl
  | some q =>
      show ctx.report (ctx.file.token q) .error .nonVariableByReference (ctx.execute _ st) = _
      rw [report_error]
      cases ctx.file.target? first <;> rfl

/-- **What the by-reference arguments do**, one after the other: the variables among them are assigned in the current
    scope and dealt with, and what can be no reference is rejected. -/
theorem execute_passByReferences (hsets : signature.doesNotInitialize = false) (firsts : List Nat) (st : ScanState) :
    ctx.execute (firsts.flatMap (ctx.file.passByReference signature)) st
      = { st with
          scopes := st.scopes.assignAll ((firsts.filterMap ctx.file.target?).map ctx.file.token)
          consumed := (firsts.filterMap ctx.file.target?).reverse ++ st.consumed
          defects := ((firsts.filterMap ctx.file.rejected?).map fun q => nonVariable (ctx.file.token q)).reverse
            ++ st.defects } := by
  induction firsts generalizing st with
  | nil => rfl
  | cons first firsts ih =>
      have hcons : ∀ g : Nat → Option Nat, (first :: firsts).filterMap g = (g first).toList ++ firsts.filterMap g := by
        intro g
        rw [List.filterMap_cons]
        cases g first <;> rfl
      rw [List.flatMap_cons, ctx.execute_append, execute_passByReference hsets, ih, hcons, hcons]
      simp only [ScopeStack.assignAll, List.map_append, List.reverse_append, List.foldl_append, List.append_assoc]

namespace CallsAt

variable (hcall : ctx.CallsAt types i paren signature)

include hcall

theorem lt_size : i < ctx.file.size :=
  TokenStream.lt_size_of_kind (by rw [hcall.name]; exact Kind.noConfusion)

/-- **What a call of a known function does:** its named arguments first, then those that it takes by reference. -/
theorem handleCall_eq (hascending : Ascending signature.refs) (hpositions : ∀ p ∈ signature.refs, 0 ≤ p) :
    ctx.handleCall types i paren = ⟨ctx.file.passNamed signature paren
      ++ (ctx.file.referenceArguments signature paren).flatMap (ctx.file.passByReference signature), .ok ()⟩ := by
  unfold handleCall
  dsimp only
  rw [hcall.known]
  dsimp only
  unfold TokenStream.passNamed TokenStream.referenceArguments
  split
  · next hempty =>
      rw [List.isEmpty_iff.mp hempty]
      rfl
  · rw [Plan.bind_of_ok (Plan.result_emitAll _), TokenStream.passReferences_eq hascending hpositions]
    rfl

/-- At a call only a switch to relaxed mode can come before the arguments. -/
theorem commands_dispatch : ∃ triggers : List Command, (∀ c ∈ triggers, c.isTrigger)
    ∧ (ctx.dispatch types i).commands = triggers ++ (ctx.handleCall types i paren).commands := by
  unfold dispatch
  simp only [hcall.name, Plan.bind_return_commands]
  rw [hcall.opensCall.handleName_eq, Plan.bind_of_ok (Plan.result_emitAll _)]
  exact ⟨_, ctx.extractSwitch_trigger i, rfl⟩

end CallsAt

/-! ## The rest of the scan -/

section

variable {q : Nat} (hf : ctx.file.WellNested) (hcall : ctx.CallsAt types i paren signature)
  (hargument : ctx.file.ArgumentAt paren q)

include hf hcall hargument

/-- The call itself does not read its by-reference arguments. -/
theorem CallsAt.spares (hascending : Ascending signature.refs) (hpositions : ∀ p ∈ signature.refs, 0 ≤ p)
    (hsets : signature.doesNotInitialize = false) (h : c ∈ (ctx.dispatch types i).commands) : c.Spares q := by
  obtain ⟨triggers, htriggers, hcommands⟩ := hcall.commands_dispatch
  rw [hcommands, hcall.handleCall_eq hascending hpositions] at h
  rcases List.mem_append.mp h with h | h
  · have htrigger := htriggers c h
    cases c with
    | schedule => exact rfl
    | _ => cases htrigger
  rcases List.mem_append.mp h with h | h
  · unfold TokenStream.passNamed at h
    split at h
    · cases h
    · obtain ⟨first, hfirst, h⟩ := List.mem_flatMap.mp h
      obtain ⟨other, hother, _, _, rfl | rfl⟩ := ctx.file.mem_passToUnknown.mp h
      · show (ctx.file.token other).index ≠ q
        rw [hf.index]
        rintro rfl
        exact hargument.not_named hcall.opens hfirst hother
      · exact rfl
  · obtain ⟨first, _, h⟩ := List.mem_flatMap.mp h
    rw [TokenStream.passByReference_eq hsets] at h
    rcases List.mem_append.mp h with h | h
    · obtain ⟨_, _, h⟩ := List.mem_flatMap.mp h
      rcases List.mem_pair.mp h with rfl | rfl <;> exact rfl
    · obtain ⟨_, _, rfl⟩ := List.mem_map.mp h
      exact rfl

/-- A list whose parenthesis follows another token has other arguments. -/
theorem CallsAt.argument_ne {word paren' other : Nat} (hword : word ≠ i)
    (hsig : (ctx.file.token word).isTrivial = false) (hnext : ctx.file.next? word = some paren')
    (hopens : ctx.file.isChar paren' '(') (hother : ctx.file.ArgumentAt paren' other) : other ≠ q := by
  rintro rfl
  obtain rfl := hargument.unique hf hcall.opens hopens hother
  have hname : (ctx.file.token i).isTrivial = false := TokenStream.isTrivial_of_kind hcall.name rfl
  have hprev := TokenStream.prev?_of_next? hnext hsig
  exact hword (Option.some.inj (hprev.symm.trans (TokenStream.prev?_of_next? hcall.next hname)))

/-- **Other steps leave the argument alone**, but for plain reads. -/
theorem CallsAt.spares_elsewhere {types' : List (String × String)} {i' : Nat} (hne : i' ≠ i)
    (h : c ∈ (ctx.dispatch types' i').commands) : (∃ token, c = .read token) ∨ c.Spares q := by
  rcases dispatch_guarded h with hguarded | hchecks
  · by_cases hlenient : c.isLenient
    · obtain ⟨hname, paren', first, other, hnext, hopens, hfirst, hother, rfl⟩ := lenient_of_mem_dispatch h hlenient
      refine .inr ?_
      show (ctx.file.token other).index ≠ q
      rw [hf.index]
      rcases hfirst with hfirst | hfirst
      · exact hcall.argument_ne hf hargument hne (TokenStream.isTrivial_of_kind hname rfl) hnext hopens
          ⟨first, List.mem_of_mem_filter hfirst, hother⟩
      · rintro rfl
        exact hargument.not_named hcall.opens hfirst hother
    · cases c with
      | read token => exact .inl ⟨token, rfl⟩
      | readLeniently => exact absurd rfl hlenient
      | check => cases hguarded
      | checkOuter => cases hguarded
      | _ => exact .inr hguarded
  · refine .inr ?_
    cases hchecks with
    | @argument paren' first other after signature' hcall' _ hfirst hother _ _ _ =>
        show (ctx.file.token other).index ≠ q
        rw [hf.index]
        have hsig := TokenStream.isTrivial_of_kind hcall'.name rfl
        exact hcall.argument_ne hf hargument hne hsig hcall'.next hcall'.opens
          ⟨first, List.mem_of_mem_filter hfirst.mem, hother⟩
    | @holder first p other _ _ _ hdollar hother _ =>
        show (ctx.file.token other).index ≠ q
        rw [hf.index]
        rintro rfl
        have hsig := TokenStream.isTrivial_of_kind hdollar rfl
        have hprev : ctx.file.prevIs other (.char '$') := by
          simp [TokenStream.prevIs, TokenStream.prev?_of_next? hother hsig, hdollar]
        exact TokenStream.not_prevIs_of_prevAny (hargument.prevAny_lead hcall.opens) (by decide) hprev
    | @capture _ _ _ other hfunction _ _ _ _ _ _ =>
        rw [ctx.dispatch_of_keyword hfunction] at h
        rcases TokenStream.checkOuter_of_mem_handleFunction h with
          hguarded | ⟨_, _, word, captures, place, _, hword, hnext, hopens, hplace, hvar, heq⟩
        · cases hguarded
        · have huse : ctx.file.kind word = .keyword .useWord := TokenStream.kind_useKeyword? hword
          have hne' : word ≠ i := by
            rintro rfl
            cases huse.symm.trans hcall.name
          show (ctx.file.token other).index ≠ q
          rw [Command.checkOuter.inj heq, hf.index]
          exact hcall.argument_ne hf hargument hne' (TokenStream.isTrivial_of_kind huse rfl) hnext hopens
            ⟨place, hplace, TokenStream.withoutAmpersand_of_var hvar⟩

end

/-- A moment since a step belongs to the step or to a later one. -/
theorem InStep.since {k t n t' n' i' m : Nat} (h : ctx.InStep k c t' n' i' m) (hstep : ctx.StepAt t n i) (hk : n ≤ k) :
    (n' = n ∧ i' = i) ∨ (n + (ctx.plan i (ctx.stateAt n)).commands.length ≤ n' ∧ i < i') := by
  have hm : m < _ := (List.getElem?_eq_some_iff.mp h.command).1
  have hmoment := h.moment
  rcases Nat.lt_trichotomy t t' with hlt | rfl | hgt
  · exact .inr (hstep.later h.step hlt)
  · exact .inl (h.step.unique hstep)
  · have hearlier := h.step.later hstep hgt
    omega

section

variable {t n : Nat} (hstep : ctx.StepAt t n i)
  (hcall : ctx.CallsAt (ctx.arrive i (ctx.stateAt n)).currentTypes i paren signature)
  (hascending : Ascending signature.refs) (hpositions : ∀ p ∈ signature.refs, 0 ≤ p)

include hstep hcall hascending hpositions

/-- **The step at a call** ends with its by-reference arguments. -/
theorem StepAt.after_call : ∃ m, ctx.after i (ctx.stateAt n)
    = ctx.execute ((ctx.file.referenceArguments signature paren).flatMap (ctx.file.passByReference signature))
        (ctx.stateAt (n + m)) := by
  obtain ⟨triggers, _, hcommands⟩ := hcall.commands_dispatch
  rw [hcall.handleCall_eq hascending hpositions] at hcommands
  have hplan : (ctx.plan i (ctx.stateAt n)).commands
      = (arrival i ++ (triggers ++ ctx.file.passNamed signature paren))
        ++ (ctx.file.referenceArguments signature paren).flatMap (ctx.file.passByReference signature) := by
    rw [ctx.commands_plan, hcommands]
    simp only [List.append_assoc]
  have hlength : (arrival i ++ (triggers ++ ctx.file.passNamed signature paren)).length
      ≤ (ctx.plan i (ctx.stateAt n)).commands.length := by
    rw [hplan]
    exact (List.prefix_append _ _).length_le
  refine ⟨(arrival i ++ (triggers ++ ctx.file.passNamed signature paren)).length, ?_⟩
  rw [hstep.stateAt_add hcall.lt_size hlength, after, hplan, List.take_left, ctx.execute_append]

/-- **A variable that a call sets is never reported** as unknown afterwards. -/
theorem StepAt.index_ne_of_reportsAt (hsets : signature.doesNotInitialize = false) (hf : ctx.file.WellNested) {q : Nat}
    (hq : ctx.file.SetsVariable signature paren q) {k : Nat} (hk : n ≤ k) {d : Defect} (hreport : ctx.ReportsAt k d)
    (hd : d.finding.isUnknownRead) : d.token.index ≠ q := by
  have hargument : ctx.file.ArgumentAt paren q := hq.argumentAt
  obtain ⟨c, hc, hfound⟩ := ctx.exists_found_of_reportsAt hreport
  obtain ⟨t', n', i', m, hin⟩ := exists_inStep hc
  have hmem := List.mem_of_getElem? hin.command
  rw [ctx.commands_plan] at hmem
  rcases List.mem_append.mp hmem with harrival | hmem
  · have hspares : c.Spares q := by
      rcases (by simpa [arrival] using harrival) with rfl | rfl | rfl <;> exact rfl
    exact index_ne_of_spares hspares hfound hd
  rcases hin.since hstep hk with ⟨rfl, rfl⟩ | ⟨hlater, hlt⟩
  · exact index_ne_of_spares (hcall.spares hf hargument hascending hpositions hsets hmem) hfound hd
  · rcases hcall.spares_elsewhere hf hargument (by omega) hmem with ⟨token, rfl⟩ | hspares
    · -- the scan comes to the token again, but it was dealt with
      have hconsumed : q ∈ (ctx.stateAt k).consumed := by
        refine consumed_stateAt (a := n + (ctx.plan i (ctx.stateAt n)).commands.length) ?_ ?_
        · have hmoment := hin.moment
          omega
        · obtain ⟨m, hafter⟩ := hstep.after_call hcall hascending hpositions
          rw [hstep.stateAt_next hcall.lt_size, hafter, execute_passByReferences hsets]
          exact List.mem_append_left _ (List.mem_reverse.mpr (hf.mem_filterMap_target?.mpr hq))
      rcases (reads_of_found rfl hfound hd).2 with ⟨_, hnot⟩ | heq
      · rintro rfl
        exact hnot hconsumed
      · cases heq
    · exact index_ne_of_spares hspares hfound hd

end

/-- Commands that cannot find it report no argument that can be no reference. -/
theorem count_nonVariable_execute {cs : List Command} (h : ∀ c ∈ cs, .nonVariableByReference ∉ c.findings)
    (token : Token) (st : ScanState) :
    (ctx.execute cs st).defects.count (nonVariable token) = st.defects.count (nonVariable token) := by
  induction cs generalizing st with
  | nil => rfl
  | cons c cs ih =>
      rw [ctx.execute_cons, ih fun c' hc' => h c' (List.mem_cons_of_mem c hc')]
      rcases (perform_notes c st).defects_eq with hsame | ⟨d, hd, hnew⟩
      · rw [hsame]
      · have hne : d ≠ nonVariable token := by
          rintro rfl
          exact h c (List.mem_cons_self ..) (mem_findings hd)
        rw [hnew, List.count_cons_of_ne hne]

/-- **An argument that can be no reference is reported once.** -/
theorem CallsAt.count_nonVariable (hcall : ctx.CallsAt types i paren signature) (hf : ctx.file.WellNested)
    (hascending : Ascending signature.refs) (hpositions : ∀ p ∈ signature.refs, 0 ≤ p)
    (hsets : signature.doesNotInitialize = false) {q : Nat} (hq : ctx.file.RejectsArgument signature paren q)
    (st : ScanState) :
    (ctx.execute (ctx.handleCall types i paren).commands st).defects.count (nonVariable (ctx.file.token q))
      = st.defects.count (nonVariable (ctx.file.token q)) + 1 := by
  have hinj : Function.Injective fun q => nonVariable (ctx.file.token q) := by
    intro a b hab
    have hindex := congrArg (fun d : Defect => d.token.index) hab
    rwa [show (nonVariable (ctx.file.token a)).token.index = a from hf.index a,
      show (nonVariable (ctx.file.token b)).token.index = b from hf.index b] at hindex
  have hnodup := (TokenStream.nodup_rejected hascending hpositions hcall.opens).map hinj
  have hmem : nonVariable (ctx.file.token q) ∈ ((ctx.file.referenceArguments signature paren).filterMap
      ctx.file.rejected?).map fun q => nonVariable (ctx.file.token q) :=
    List.mem_map.mpr ⟨q, TokenStream.mem_filterMap_rejected?.mpr hq, rfl⟩
  have hnamed : ∀ c ∈ ctx.file.passNamed signature paren, .nonVariableByReference ∉ c.findings := by
    intro c hc
    unfold TokenStream.passNamed at hc
    split at hc
    · cases hc
    · obtain ⟨first, _, hc⟩ := List.mem_flatMap.mp hc
      obtain ⟨_, _, _, _, rfl | rfl⟩ := ctx.file.mem_passToUnknown.mp hc <;> simp [Command.findings]
  rw [hcall.handleCall_eq hascending hpositions, ctx.execute_append, execute_passByReferences hsets]
  show List.count _ (_ ++ _) = _
  rw [List.count_append, List.count_eq_one_of_mem (List.nodup_reverse.mpr hnodup) (List.mem_reverse.mpr hmem),
    count_nonVariable_execute hnamed, Nat.add_comm]

end ScanContext

namespace Linter

/-- **By-reference arguments of a known call.** The call sets the variables among them: after its step they are
    assigned in the current scope, and no read of their tokens is reported for the rest of the scan. An argument that
    starts with anything but a variable, an ellipsis or a static property is reported once. Apart from its named
    arguments the call does nothing else: other variables, tokens and defects stay as they are. -/
theorem reference_arguments_set {settings : LintSettings} {only : List String} {linter : Linter}
    (hlinter : ofSettings settings only = .ok linter) {name source : String} {file : SourceFile}
    (hfile : SourceFile.ofSource name source = .ok file) {t n i paren : Nat} {signature : Signature}
    (hstep : (linter.context file).StepAt t n i)
    (hcall : (linter.context file).CallsAt
      ((linter.context file).arrive i ((linter.context file).stateAt n)).currentTypes i paren signature)
    (hpositions : ∀ p ∈ signature.refs, 0 ≤ p) (hsets : signature.doesNotInitialize = false) :
    let ctx := linter.context file
    let call := ctx.handleCall (ctx.arrive i (ctx.stateAt n)).currentTypes i paren
    (∀ q, file.SetsVariable signature paren q →
        ((ctx.after i (ctx.stateAt n)).scopes.find? 0 (file.text q)).map Variable.status = some .assigned
        ∧ ∀ k d, n ≤ k → ctx.ReportsAt k d → d.finding.isUnknownRead → d.token.index ≠ q)
      ∧ (∀ q, file.RejectsArgument signature paren q → let defect := ScanContext.nonVariable (file.token q)
          defect.severity = .error ∧ defect.message = "Possible attemps to pass non-variable by reference"
          ∧ ∀ st : ScanState, (ctx.execute call.commands st).defects.count defect = st.defects.count defect + 1)
      ∧ call.result = .ok ()
      ∧ ∃ targets rejected : List Nat, (∀ q, q ∈ targets ↔ file.SetsVariable signature paren q)
        ∧ (∀ q, q ∈ rejected ↔ file.RejectsArgument signature paren q)
        ∧ ∀ st : ScanState,
          let named := ctx.execute (file.passNamed signature paren) st
          ctx.execute call.commands st = { named with
            scopes := named.scopes.assignAll (targets.map file.token)
            consumed := targets.reverse ++ named.consumed
            defects := (rejected.map fun q => ScanContext.nonVariable (file.token q)).reverse ++ named.defects } := by
  intro ctx call
  have hf : ctx.file.WellNested := SourceFile.wellNested_of_ofSource hfile
  obtain ⟨key, hkey⟩ := hcall.find?
  have hascending : Ascending signature.refs := find?_ascending hlinter hkey
  have heq := hcall.handleCall_eq hascending hpositions
  refine ⟨fun q hq => ⟨?_, ?_⟩, fun q hq => ⟨rfl, rfl, fun st => ?_⟩, ?_, _, _,
    fun q => hf.mem_filterMap_target?, fun q => TokenStream.mem_filterMap_rejected?, fun st => ?_⟩
  · obtain ⟨m, hafter⟩ := hstep.after_call hcall hascending hpositions
    rw [hafter, ScanContext.execute_passByReferences hsets]
    refine ScopeStack.status_assignAll (ctx.depth_stateAt _) (ctx.stateAt_resolved _) ?_
    rw [List.map_map]
    exact List.mem_map.mpr ⟨q, hf.mem_filterMap_target?.mpr hq, rfl⟩
  · intro k d hk hreport hd
    exact hstep.index_ne_of_reportsAt hcall hascending hpositions hsets hf hq hk hreport hd
  · exact hcall.count_nonVariable hf hascending hpositions hsets hq st
  · exact congrArg Plan.result heq
  · show ctx.execute (ctx.handleCall _ i paren).commands st = _
    rw [heq, ctx.execute_append]
    exact ScanContext.execute_passByReferences hsets _ _

/-- A call that is given an element of an array and a number. -/
def elementAndNumber : String :=
  "<?php function f(&$x, &$y) \x7b\x7d f($v[0], 1); echo $v;"

theorem elementAndNumber_run : ∃ file, SourceFile.ofSource "f.php" elementAndNumber = .ok file
    ∧ let ctx := warnings.context file
      ctx.StepAt 4 16 16
      ∧ (file.kind 16 = .name ∧ file.next? 16 = some 17 ∧ file.isChar 17 '('
        ∧ file.prevIs 16 (.keyword .functionWord) = false
        ∧ ctx.callSignature? (ctx.arrive 16 (ctx.stateAt 16)).currentTypes 16 = some ⟨"f", [0, 1], false⟩)
      ∧ file.positionalArguments 17 = [18, 24]
      -- the element and the comma behind it
      ∧ (file.withoutAmpersand 18 = some 18 ∧ file.kind 18 = .var ∧ file.text 18 = "$v" ∧ file.next? 18 = some 19
        ∧ file.kind 19 = .char '[' ∧ file.closer? 19 = some 21 ∧ file.kind 21 = .char ']' ∧ file.next? 21 = some 22
        ∧ file.kind 22 = .char ',')
      ∧ (file.withoutAmpersand 24 = some 24 ∧ file.kind 24 = .integer ∧ file.isClassVariable 24 = false) :=
  exists_ok_of_decide (by decide +kernel)

/-- The array is set, and the number is reported. -/
theorem elementAndNumber_passed : ofSettings { level := "warning" } [] = .ok warnings
    ∧ ∃ file, SourceFile.ofSource "f.php" elementAndNumber = .ok file
      ∧ let ctx := warnings.context file
        let call := ctx.handleCall (ctx.arrive 16 (ctx.stateAt 16)).currentTypes 16 17
        file.SetsVariable ⟨"f", [0, 1], false⟩ 17 18 ∧ file.RejectsArgument ⟨"f", [0, 1], false⟩ 17 24
        ∧ ((ctx.after 16 (ctx.stateAt 16)).scopes.find? 0 "$v").map Variable.status = some .assigned
        ∧ (∀ k d, 16 ≤ k → ctx.ReportsAt k d → d.finding.isUnknownRead → d.token.index ≠ 18)
        ∧ (ctx.execute call.commands {}).defects.count (ScanContext.nonVariable (file.token 24)) = 1 := by
  obtain ⟨file, hfile, hstep, ⟨hname, hnext, hopens, hnot, hknown⟩, hfirsts,
    ⟨hq, hvar, htext, hn18, hk19, hg19, hk21, hn21, hk22⟩, hother, hnumber, hclass⟩ := elementAndNumber_run
  have hlinter : ofSettings { level := "warning" } [] = .ok warnings := by rfl
  have hcall : (warnings.context file).CallsAt ((warnings.context file).arrive 16
      ((warnings.context file).stateAt 16)).currentTypes 16 17 ⟨"f", [0, 1], false⟩ :=
    ⟨hname, hnext, hopens, hnot, hknown⟩
  have hindexed : file.IndexedAt 18 22 true _ :=
    .index hn18 hk19 hg19 hk21 (.bare hn21 (by simp [hk22]))
  have hends : file.isCharOf 22 [',', ')'] := TokenStream.isCharOf_iff.mpr ⟨',', by simp, hk22⟩
  have hset : file.SetsVariable ⟨"f", [0, 1], false⟩ 17 18 :=
    ⟨18, ⟨0, by simp, by rw [hfirsts]; rfl⟩, hq, hvar, 22, true, _, hindexed, hends⟩
  have hreject : file.RejectsArgument ⟨"f", [0, 1], false⟩ 17 24 := by
    refine ⟨24, ⟨1, by simp, by rw [hfirsts]; rfl⟩, hother, by simp [hnumber], by simp [hnumber], ?_⟩
    rw [← TokenStream.isClassVariable_iff, hclass]
    exact Bool.false_ne_true
  obtain ⟨hassigned, hreported, _⟩ := reference_arguments_set hlinter hfile hstep hcall (by decide) rfl
  obtain ⟨hstatus, hsilent⟩ := hassigned 18 hset
  rw [htext] at hstatus
  exact ⟨hlinter, file, hfile, hset, hreject, hstatus, hsilent, (hreported 24 hreject).2.2 {}⟩

/-- A call that is given a property of no class. -/
def propertyOfNoClass : String :=
  "<?php function f(&$x) \x7b\x7d f(::$v);"

theorem propertyOfNoClass_run : ∃ file, SourceFile.ofSource "f.php" propertyOfNoClass = .ok file
    ∧ let ctx := warnings.context file
      ctx.StepAt 4 15 12
      ∧ (file.kind 12 = .name ∧ file.next? 12 = some 13 ∧ file.isChar 13 '('
        ∧ file.prevIs 12 (.keyword .functionWord) = false
        ∧ ctx.callSignature? (ctx.arrive 12 (ctx.stateAt 15)).currentTypes 12 = some ⟨"f", [0], false⟩)
      ∧ file.positionalArguments 13 = [14] ∧ file.kind 14 = .doubleColon ∧ file.isClassVariable 14
      ∧ (warnings.lintSource "f.php" propertyOfNoClass).toOption = some [] :=
  exists_ok_of_decide (by decide +kernel)

/-- **A double colon with no class before it** starts the argument, and nothing is reported: it passes for a static
    property. -/
theorem propertyOfNoClass_accepted : ofSettings { level := "warning" } [] = .ok warnings
    ∧ (warnings.lintSource "f.php" propertyOfNoClass).toOption = some []
    ∧ ∃ file, SourceFile.ofSource "f.php" propertyOfNoClass = .ok file
      ∧ let ctx := warnings.context file
        ctx.StepAt 4 15 12
        ∧ ctx.CallsAt (ctx.arrive 12 (ctx.stateAt 15)).currentTypes 12 13 ⟨"f", [0], false⟩
        ∧ file.ByReference ⟨"f", [0], false⟩ 13 14 ∧ file.kind 14 = .doubleColon ∧ file.StaticPropertyAt 14 := by
  obtain ⟨file, hfile, hstep, ⟨hname, hnext, hopens, hnot, hknown⟩, hfirsts, hcolon, hclass, hlint⟩ :=
    propertyOfNoClass_run
  refine ⟨by rfl, hlint, file, hfile, hstep, ⟨hname, hnext, hopens, hnot, hknown⟩, ?_, hcolon, ?_⟩
  · exact ⟨0, by simp, by rw [hfirsts]; rfl⟩
  · exact (TokenStream.isClassVariable_iff 14).mp hclass

end Linter

end Unassigned
