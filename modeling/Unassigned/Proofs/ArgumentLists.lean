import Unassigned.Proofs.ParameterText
import Unassigned.Proofs.StepEnd

/-!
# `Proofs.ArgumentLists` — whose argument a token is

The arguments of a call are found by a walk that starts behind the parenthesis, jumps over the groups on its way and
notes the token behind each comma. `ListedFrom` is that walk as a relation. It never enters a nested group, so in a
well-nested stream a token starts an argument of **one list at most** (`WellNested.arguments_unique`), however the
lists are nested. What stands before an argument is the parenthesis or a comma (`prevAny_of_mem_arguments`), which
tells the arguments apart from the values of named ones, and from an argument without its ampersand.
-/

namespace Unassigned

namespace TokenStream

variable {f : TokenStream}
variable {paren first i : Nat}

/-! ## The walk over a list -/

/-- **The walk over a list** comes from a place to the argument at `first`; the token at the place starts an argument
    if the flag is set. -/
inductive ListedFrom (f : TokenStream) (first : Nat) : Bool → Nat → Prop where
  | here : ¬ f.isChar first ')' → ListedFrom f first true first
  | comma {fresh : Bool} {i j : Nat} :
      f.isChar i ',' → f.next? i = some j → ListedFrom f first true j → ListedFrom f first fresh i
  | pass {fresh : Bool} {i j : Nat} :
      ¬ f.isChar i ')' → f.next? (f.skipGroup i) = some j → ListedFrom f first false j → ListedFrom f first fresh i

theorem isCharOf_singleton (i : Nat) (c : Char) : f.isCharOf i [c] = f.isChar i c := by
  rw [Bool.eq_iff_iff, isCharOf_iff, isChar_iff]
  simp

theorem listedFrom_of_mem {first : Nat} (fresh : Bool) (i : Nat) (h : first ∈ f.elementsFrom [','] [')'] fresh i) :
    f.ListedFrom first fresh i := by
  rw [elementsFrom_eq, isCharOf_singleton, isCharOf_singleton] at h
  split at h
  · cases h
  next hends =>
    have hparen : ¬ f.isChar i ')' := by
      intro hparen
      exact hends (by simp [hparen])
    rcases List.mem_append.mp h with hhere | hlater
    · split at hhere
      next hstarts =>
        obtain ⟨rfl, _⟩ : fresh = true ∧ f.isChar i ',' = false := by simpa using hstarts
        obtain rfl := List.mem_singleton.mp hhere
        exact .here hparen
      next => cases hhere
    · cases hnext : f.next? (if f.isChar i ',' then i else f.skipGroup i) with
      | none =>
          rw [hnext] at hlater
          cases hlater
      | some j =>
          rw [hnext] at hlater
          have hrest := listedFrom_of_mem (f.isChar i ',') j hlater
          by_cases hcomma : f.isChar i ','
          · rw [hcomma] at hrest hnext
            exact .comma hcomma hnext hrest
          · rw [if_neg hcomma] at hnext
            rw [Bool.not_eq_true] at hcomma
            rw [hcomma] at hrest
            exact .pass hparen hnext hrest
termination_by f.size - i
decreasing_by
  have hbounds := next?_skip_bounds hnext
  omega

/-- The walk over the arguments starts with the token behind the parenthesis. -/
theorem listedFrom_of_mem_arguments (h : first ∈ f.arguments paren) :
    ∃ j, f.next? paren = some j ∧ f.ListedFrom first true j := by
  rw [arguments_eq_elementsAfter, elementsAfter] at h
  cases hnext : f.next? paren with
  | none =>
      rw [hnext] at h
      cases h
  | some j =>
      rw [hnext] at h
      exact ⟨j, rfl, listedFrom_of_mem true j h⟩

/-- The elements of a list stand in order. -/
theorem elementsFrom_ascending (separators terminators : List Char) (fresh : Bool) (i : Nat) :
    (f.elementsFrom separators terminators fresh i).Pairwise (· < ·) := by
  rw [elementsFrom_eq]
  split
  · exact .nil
  · cases hnext : f.next? (if f.isCharOf i separators then i else f.skipGroup i) with
    | none =>
        rw [Option.map_none, Option.getD_none, List.append_nil]
        split
        · exact List.pairwise_singleton _ _
        · exact .nil
    | some j =>
        have hrest := elementsFrom_ascending separators terminators (f.isCharOf i separators) j
        have hlt : i < j := (next?_skip_bounds hnext).1
        rw [Option.map_some, Option.getD_some]
        split
        · exact List.pairwise_cons.mpr ⟨fun k hk => Nat.lt_of_lt_of_le hlt (lt_of_mem_elementsFrom j hk), hrest⟩
        · exact hrest
termination_by f.size - i
decreasing_by
  have hbounds := next?_skip_bounds hnext
  omega

theorem positionalArguments_ascending (paren : Nat) : (f.positionalArguments paren).Pairwise (· < ·) := by
  apply List.Pairwise.filter
  unfold arguments elements
  split
  · exact .nil
  · exact elementsFrom_ascending ..

namespace ListedFrom

variable {first i : Nat} {fresh : Bool}

theorem le (h : f.ListedFrom first fresh i) : i ≤ first := by
  induction h with
  | here => exact Nat.le_refl _
  | comma _ hnext _ ih =>
      have hbounds := f.next?_bounds hnext
      omega
  | @pass _ i _ _ hnext _ ih =>
      have hbounds := f.next?_bounds hnext
      have hskip := f.le_skipGroup i
      omega

/-- An argument that is not the first one of the walk stands behind a comma. -/
theorem comma_before (h : f.ListedFrom first fresh i) :
    (fresh ∧ i = first) ∨ ∃ s, f.isChar s ',' ∧ f.next? s = some first := by
  induction h with
  | here => exact .inl ⟨rfl, rfl⟩
  | comma hcomma hnext _ ih =>
      rcases ih with ⟨_, rfl⟩ | hbefore
      · exact .inr ⟨_, hcomma, hnext⟩
      · exact .inr hbefore
  | pass _ _ _ ih =>
      rcases ih with ⟨hfalse, _⟩ | hbefore
      · cases hfalse
      · exact .inr hbefore

/-- The walk does not leave the parentheses in which it is. -/
theorem lt_close (h : f.ListedFrom first fresh i) (hf : f.WellNested) {paren close : Nat}
    (hgroup : f.closer? paren = some close) (hclose : f.isChar close ')') (hpi : paren < i) (hic : i ≤ close) :
    first < close := by
  have hsig : (f.token close).isTrivial = false := isTrivial_of_closing (hf.sorts hgroup).2.1
  induction h with
  | here hnot => exact Nat.lt_of_le_of_ne hic fun heq => hnot (heq ▸ hclose)
  | @comma _ i j hcomma hnext _ ih =>
      have hne : i ≠ close := by
        rintro rfl
        rw [isChar_iff] at hcomma hclose
        cases hcomma.symm.trans hclose
      have hbounds := f.next?_bounds hnext
      exact ih (by omega) (le_of_next? hnext (by omega) hsig)
  | @pass _ i j hnot hnext _ ih =>
      have hne : i ≠ close := fun heq => hnot (heq ▸ hclose)
      have hskip := hf.nested hgroup hpi (by omega)
      have hle := f.le_skipGroup i
      have hbounds := f.next?_bounds hnext
      exact ih (by omega) (le_of_next? hnext hskip hsig)

/-- The walk never enters a group: an argument starts no later than the group, or behind it. -/
theorem not_inside (h : f.ListedFrom first fresh i) (hf : f.WellNested) {x close : Nat}
    (hgroup : f.closer? x = some close) (hix : i ≤ x) : first ≤ x ∨ close < first := by
  have hopen : (f.kind x).closer?.isSome := by
    obtain ⟨_, hclosing, hsort⟩ := hf.sorts hgroup
    rwa [hsort]
  have hsig := isTrivial_of_opening hopen
  induction h with
  | here => exact .inl hix
  | @comma _ i j hcomma hnext _ ih =>
      have hne : i ≠ x := by
        rintro rfl
        rw [isChar_iff.mp hcomma] at hopen
        cases hopen
      exact ih (le_of_next? hnext (by omega) hsig)
  | @pass _ i j _ hnext hrest ih =>
      by_cases hbehind : f.skipGroup i < x
      · exact ih (le_of_next? hnext hbehind hsig)
      · -- the group is the one that is jumped over, or inside it
        refine .inr ?_
        have hle := hrest.le
        have hbounds := f.next?_bounds hnext
        by_cases heq : i = x
        · subst heq
          rw [skipGroup_of_closer hgroup] at hbounds
          omega
        · cases houter : f.closer? i with
          | none =>
              rw [skipGroup_of_none houter] at hbehind
              omega
          | some k =>
              rw [skipGroup_of_closer houter] at hbehind hbounds
              have hne : x ≠ k := by
                rintro rfl
                rw [hf.closer_none houter] at hgroup
                cases hgroup
              have hnested := hf.nested houter (show i < x by omega) (by omega)
              rw [skipGroup_of_closer hgroup] at hnested
              omega

end ListedFrom

/-! ## Arguments and what stands before them -/

/-- What stands before an argument. -/
def isListMark : Kind → Bool
  | .char '(' | .char ',' => true
  | _ => false

theorem prevAny_of_next? {j : Nat} (h : f.next? i = some j) (hsig : (f.kind i).isTrivial = false) (p : Kind → Bool) :
    f.prevAny j p = p (f.kind i) := by
  rw [prevAny, prev?_of_next? h hsig]
  rfl

theorem isTrivial_of_listMark (h : isListMark (f.kind i)) : (f.token i).isTrivial = false := by
  unfold isListMark at h
  split at h
  · next hparen => exact isTrivial_of_kind hparen rfl
  · next hcomma => exact isTrivial_of_kind hcomma rfl
  · cases h

/-- An argument starts behind the parenthesis or a comma. -/
theorem exists_listMark_of_mem_arguments (hparen : f.isChar paren '(') (h : first ∈ f.arguments paren) :
    ∃ s, isListMark (f.kind s) ∧ f.next? s = some first := by
  obtain ⟨j, hnext, hlisted⟩ := listedFrom_of_mem_arguments h
  rcases hlisted.comma_before with ⟨_, rfl⟩ | ⟨s, hcomma, hnext⟩
  · exact ⟨paren, by rw [isChar_iff.mp hparen]; rfl, hnext⟩
  · exact ⟨s, by rw [isChar_iff.mp hcomma]; rfl, hnext⟩

/-- Before an argument stands the parenthesis or a comma. -/
theorem prevAny_of_mem_arguments (hparen : f.isChar paren '(') (h : first ∈ f.arguments paren) :
    f.prevAny first isListMark := by
  obtain ⟨s, hmark, hnext⟩ := exists_listMark_of_mem_arguments hparen h
  rw [prevAny_of_next? hnext (isTrivial_of_listMark hmark)]
  exact hmark

/-- **A token starts an argument of one list at most.** -/
theorem WellNested.arguments_unique (hf : f.WellNested) {paren' : Nat} (hparen : f.isChar paren '(')
    (hparen' : f.isChar paren' '(') (h : first ∈ f.arguments paren) (h' : first ∈ f.arguments paren') :
    paren = paren' := by
  -- of two lists the later one has its arguments inside its own group, which the earlier walk does not enter
  have hlater : ∀ {a b : Nat}, f.isChar b '(' → first ∈ f.arguments a → first ∈ f.arguments b → ¬ a < b := by
    intro a b hb hfirst hfirst' hab
    have hkind := isChar_iff.mp hb
    obtain ⟨close, hgroup⟩ := hf.closes_of_isChar hb rfl
    have hclose : f.isChar close ')' := isChar_iff.mpr (hf.kind_closer hgroup (by rw [hkind]; rfl))
    have hlt := (closer?_eq_some.mp hgroup).2
    obtain ⟨j, hnext, hlisted⟩ := listedFrom_of_mem_arguments hfirst
    obtain ⟨j', hnext', hlisted'⟩ := listedFrom_of_mem_arguments hfirst'
    have hle := le_of_next? hnext hab (isTrivial_of_kind hkind rfl)
    have hle' := le_of_next? hnext' hlt (isTrivial_of_closing (hf.sorts hgroup).2.1)
    have hbounds := f.next?_bounds hnext'
    have hinside := hlisted'.lt_close hf hgroup hclose hbounds.1 hle'
    have hstart := hlisted'.le
    rcases hlisted.not_inside hf hgroup hle with hbefore | hbehind <;> omega
  have hnot := hlater hparen' h h'
  have hnot' := hlater hparen h' h
  omega

/-! ## Arguments without their ampersand -/

/-- An argument is told by what is left without its ampersand, as no ampersand stands before the argument. -/
theorem withoutAmpersand_inj {a b q : Nat} (ha : ¬ f.prevIs a (.char '&')) (hb : ¬ f.prevIs b (.char '&'))
    (hqa : f.withoutAmpersand a = some q) (hqb : f.withoutAmpersand b = some q) : a = b := by
  have hprev : ∀ {x : Nat}, f.isChar x '&' → f.next? x = some q → f.prev? q = some x := by
    intro x hx hnext
    exact prev?_of_next? hnext (isTrivial_of_kind (isChar_iff.mp hx) rfl)
  have hmark : ∀ {x : Nat}, f.isChar x '&' → f.prev? q = some x → f.prevIs q (.char '&') := by
    intro x hx hq
    simp [prevIs, hq, isChar_iff.mp hx]
  unfold withoutAmpersand at hqa hqb
  by_cases hampa : f.isChar a '&'
  · rw [if_pos hampa] at hqa
    by_cases hampb : f.isChar b '&'
    · rw [if_pos hampb] at hqb
      exact Option.some.inj ((hprev hampa hqa).symm.trans (hprev hampb hqb))
    · rw [if_neg hampb] at hqb
      obtain rfl := Option.some.inj hqb
      exact absurd (hmark hampa (hprev hampa hqa)) hb
  · rw [if_neg hampa] at hqa
    obtain rfl := Option.some.inj hqa
    by_cases hampb : f.isChar b '&'
    · rw [if_pos hampb] at hqb
      exact absurd (hmark hampb (hprev hampb hqb)) ha
    · rw [if_neg hampb] at hqb
      exact (Option.some.inj hqb).symm

/-- Another token stands before a place. -/
theorem not_prevIs_of_prevAny {p : Kind → Bool} {kind : Kind} (h : f.prevAny i p) (hkind : ¬ p kind) :
    ¬ f.prevIs i kind := by
  unfold prevAny at h
  unfold prevIs
  intro hprev
  cases hp : f.prev? i with
  | none =>
      rw [hp] at h
      cases h
  | some j =>
      rw [hp] at h hprev
      rw [Option.any_some, beq_iff_eq] at hprev
      rw [Option.any_some, hprev] at h
      exact hkind h

/-- The token at `q` is an argument of the list that opens at `paren`, without its ampersand. -/
def ArgumentAt (f : TokenStream) (paren q : Nat) : Prop :=
  ∃ first ∈ f.arguments paren, f.withoutAmpersand first = some q

/-- What stands before an argument that may have lost its ampersand. -/
def isArgumentLead (kind : Kind) : Bool :=
  isListMark kind || kind == .char '&'

namespace ArgumentAt

variable {paren q : Nat}

theorem prevAny_lead (h : f.ArgumentAt paren q) (hparen : f.isChar paren '(') : f.prevAny q isArgumentLead := by
  obtain ⟨first, hfirst, hq⟩ := h
  unfold withoutAmpersand at hq
  split at hq
  next hamp =>
    rw [isChar_iff] at hamp
    rw [prevAny_of_next? hq (by rw [hamp]; rfl), hamp]
    rfl
  next =>
    obtain rfl := Option.some.inj hq
    have hmark := prevAny_of_mem_arguments hparen hfirst
    unfold prevAny at hmark ⊢
    obtain ⟨s, hs, hkind⟩ := (Option.any_eq_true _ _).mp hmark
    rw [hs, Option.any_some, isArgumentLead, hkind]
    rfl

/-- **A token is an argument of one list at most**, also without its ampersand. -/
theorem unique (h : f.ArgumentAt paren q) (hf : f.WellNested) {paren' : Nat} (hparen : f.isChar paren '(')
    (hparen' : f.isChar paren' '(') (h' : f.ArgumentAt paren' q) : paren = paren' := by
  obtain ⟨first, hfirst, hq⟩ := h
  obtain ⟨first', hfirst', hq'⟩ := h'
  have hmark : ¬ f.prevIs first (.char '&') :=
    not_prevIs_of_prevAny (prevAny_of_mem_arguments hparen hfirst) (by decide)
  have hmark' : ¬ f.prevIs first' (.char '&') :=
    not_prevIs_of_prevAny (prevAny_of_mem_arguments hparen' hfirst') (by decide)
  obtain rfl := withoutAmpersand_inj hmark hmark' hq hq'
  exact hf.arguments_unique hparen hparen' hfirst hfirst'

end ArgumentAt

/-- Before the value of a named argument stands a colon. -/
theorem prevIs_of_mem_namedArguments (h : first ∈ f.namedArguments paren) : f.prevIs first (.char ':') := by
  obtain ⟨label, _, hvalue⟩ := List.mem_filterMap.mp h
  unfold namedValue? at hvalue
  split at hvalue
  next colon _ =>
    split at hvalue
    next hnamed =>
      obtain ⟨_, hcolon⟩ := Bool.and_eq_true_iff.mp hnamed
      have hnext : f.next? colon = some first := hvalue
      have hkind := isChar_iff.mp hcolon
      simp [prevIs, prev?_of_next? hnext (isTrivial_of_kind hkind rfl), hkind]
    next => cases hvalue
  next => cases hvalue

/-- No argument is the value of a named one. -/
theorem ArgumentAt.not_named {q : Nat} (h : f.ArgumentAt paren q) (hparen : f.isChar paren '(') {paren' : Nat}
    (hfirst : first ∈ f.namedArguments paren') : f.withoutAmpersand first ≠ some q := by
  intro hq
  obtain ⟨start, hstart, hq'⟩ := h
  have hcolon := prevIs_of_mem_namedArguments hfirst
  have hmark := prevAny_of_mem_arguments hparen hstart
  have hamp : ¬ f.prevIs first (.char '&') :=
    not_prevIs_of_prevAny (p := fun kind => kind == .char ':') hcolon (by decide)
  obtain rfl := withoutAmpersand_inj (not_prevIs_of_prevAny hmark (by decide)) hamp hq' hq
  exact not_prevIs_of_prevAny hmark (by decide) hcolon

end TokenStream

end Unassigned
