import Unassigned.Proofs.Formatting.Declarations
import Unassigned.Proofs.Trigger

/-!
# `Proofs.ParameterReading` — the way over what stands before the variable of a parameter

A parameter is read over everything that can stand before its variable: attributes, groups, types, modifiers, an
ampersand and an ellipsis. `LeadsTo` says that the reading comes from one place to another. It stops at the variable,
or at a token that cannot stand there.

The two marks of a parameter are what the reading comes to on its way (`LeadsTo.isVariadic_iff_passes`,
`LeadsTo.isRef_iff_passes`): an ellipsis, and an ampersand with the variable or the ellipsis directly behind it.
-/

namespace Unassigned

namespace TokenStream

variable {f : TokenStream} {isRef isVariadic : Bool} {i j stop : Nat}

/-! ## What can stand before the variable -/

/-- The token can stand before the variable of a parameter. -/
def isLead (f : TokenStream) (i : Nat) : Bool :=
  f.kind i == .attributeOpen || f.isChar i '(' || isParameterPart (f.kind i) || f.isCharOf i ['?', '|']
    || f.isChar i '&' || f.kind i == .ellipsis

/-- The end of what starts there. Attributes and parenthesised groups are passed as a whole. -/
def leadEnd (f : TokenStream) (i : Nat) : Nat :=
  if f.kind i == .attributeOpen || f.isChar i '(' then f.skipGroup i else i

theorem isLead_of_ellipsis (h : f.kind i = .ellipsis) : f.isLead i := by
  simp [isLead, h]

theorem isLead_of_ampersand (h : f.isChar i '&') : f.isLead i := by
  simp [isLead, h]

theorem not_isLead_of_var (h : f.kind i = .var) : ¬ f.isLead i := by
  simp [isLead, isChar, Token.isChar, isCharOf, Token.isCharOf, show (f.token i).kind = .var from h, h, isParameterPart]

theorem leadEnd_of_ampersand (h : f.isChar i '&') : f.leadEnd i = i := by
  rw [isChar_iff] at h
  refine if_neg ?_
  simp [isChar, Token.isChar, show (f.token i).kind = .char '&' from h, h]

/-- What is passed ends in its own token, or in the bracket that closes it. -/
theorem leadEnd_cases (f : TokenStream) (i : Nat) : f.leadEnd i = i ∨ f.closer? i = some (f.leadEnd i) := by
  unfold leadEnd
  split
  · unfold skipGroup
    cases f.closer? i with
    | none => exact .inl rfl
    | some last => exact .inr rfl
  · exact .inl rfl

theorem lt_of_next?_leadEnd (h : f.next? (f.leadEnd i) = some j) : i < j := by
  have hbounds := f.next?_bounds h
  rcases f.leadEnd_cases i with heq | hcloser
  · omega
  · have hlt := (closer?_eq_some.mp hcloser).2
    omega

/-- A token whose next one is not passed is not passed itself: it does not stand in a group that is. -/
theorem WellNested.le_of_next?_leadEnd (hf : f.WellNested) (hj : f.next? (f.leadEnd i) = some j) {a b : Nat}
    (hia : i < a) (hsig : (f.token a).isTrivial = false) (hkind : (f.kind a).closing? = none)
    (hnext : f.next? a = some b) (hjb : j ≤ b) : j ≤ a := by
  have hbounds := f.next?_bounds hj
  rcases f.leadEnd_cases i with heq | hcloser
  · exact le_of_next? hj (by omega) hsig
  · obtain ⟨_, hclosing, _⟩ := hf.sorts hcloser
    rcases Nat.lt_trichotomy (f.leadEnd i) a with hlt | heq | hgt
    · exact le_of_next? hj hlt hsig
    · rw [heq, hkind] at hclosing
      cases hclosing
    · -- inside the group that is passed, the next token is not behind it
      have hinside := le_of_next? hnext hgt (isTrivial_of_closing hclosing)
      omega

theorem parameterFrom_of_lead (hlead : f.isLead i) (hnext : f.next? (f.leadEnd i) = some j) :
    f.parameterFrom isRef isVariadic i
      = f.parameterFrom (isRef || (f.isChar i '&' && (f.kind j == .var || f.kind j == .ellipsis)))
          (isVariadic || f.kind i == .ellipsis) j := by
  unfold isLead at hlead
  unfold leadEnd at hnext
  rw [parameterFrom_eq, if_pos hlead, hnext]

theorem parameterFrom_of_not_lead (h : ¬ f.isLead i) :
    f.parameterFrom isRef isVariadic i = ⟨if f.kind i == .var then some i else none, isRef, isVariadic⟩ := by
  rw [parameterFrom_eq]
  exact if_neg h

/-! ## The way of the reading -/

/-- Reading a parameter leads from a place to `stop`. -/
inductive LeadsTo (f : TokenStream) (stop : Nat) : Nat → Prop where
  | here : LeadsTo f stop stop
  | pass {i j : Nat} : f.isLead i → f.next? (f.leadEnd i) = some j → LeadsTo f stop j → LeadsTo f stop i

/-- The reading of a parameter with a variable leads to it. -/
theorem leadsTo_of_varIndex (isRef isVariadic : Bool) (i : Nat) {v : Nat}
    (h : (f.parameterFrom isRef isVariadic i).varIndex = some v) : f.LeadsTo v i ∧ f.kind v = .var := by
  by_cases hlead : f.isLead i
  · cases hnext : f.next? (f.leadEnd i) with
    | none =>
        unfold isLead at hlead
        unfold leadEnd at hnext
        rw [parameterFrom_eq, if_pos hlead, hnext] at h
        cases h
    | some j =>
        rw [parameterFrom_of_lead hlead hnext] at h
        obtain ⟨hleads, hvar⟩ := leadsTo_of_varIndex _ _ j h
        exact ⟨.pass hlead hnext hleads, hvar⟩
  · rw [parameterFrom_of_not_lead hlead] at h
    by_cases hvar : f.kind i == .var
    · simp only [hvar, if_true] at h
      obtain rfl := Option.some.inj h
      exact ⟨.here, by simpa using hvar⟩
    · simp only [hvar] at h
      cases h
termination_by f.size - i
decreasing_by
  have hlt := lt_of_next?_leadEnd hnext
  have hbounds := f.next?_bounds hnext
  omega

namespace LeadsTo

theorem le (h : f.LeadsTo stop i) : i ≤ stop := by
  induction h with
  | here => exact Nat.le_refl stop
  | pass _ hnext _ ih => exact Nat.le_trans (Nat.le_of_lt (lt_of_next?_leadEnd hnext)) ih

/-- The reading comes to significant tokens only. -/
theorem significant (h : f.LeadsTo stop i) (hi : i < f.size ∧ (f.token i).isTrivial = false) :
    stop < f.size ∧ (f.token stop).isTrivial = false := by
  induction h with
  | here => exact hi
  | pass _ hnext _ ih =>
      obtain ⟨_, hlt, hsig, _⟩ := nextFrom?_eq_some.mp hnext
      exact ih ⟨hlt, hsig⟩

theorem eq_of_not_lead (h : f.LeadsTo stop i) (hi : ¬ f.isLead i) : i = stop := by
  cases h with
  | here => rfl
  | pass hlead _ _ => exact absurd hlead hi

/-- One more token is passed at the end of the way. -/
theorem snoc (h : f.LeadsTo stop i) (hlead : f.isLead stop) (hnext : f.next? (f.leadEnd stop) = some j) :
    f.LeadsTo j i := by
  induction h with
  | here => exact .pass hlead hnext .here
  | pass hlead' hnext' _ ih => exact .pass hlead' hnext' ih

/-- There is one way: from every place on it, the reading leads to where it stops. -/
theorem of_on_way {a : Nat} (ha : f.LeadsTo a i) (h : f.LeadsTo stop i) (hstop : ¬ f.isLead stop) :
    f.LeadsTo stop a := by
  induction ha with
  | here => exact h
  | pass hlead hnext _ ih =>
      cases h with
      | here => exact absurd hlead hstop
      | pass _ hnext' hrest =>
          obtain rfl := Option.some.inj (hnext.symm.trans hnext')
          exact ih hrest

/-- What stands directly before a place on the way is on the way too, unless it closes a group. -/
theorem of_next? (h : f.LeadsTo stop i) (hf : f.WellNested) {a : Nat} (hia : i ≤ a)
    (hsig : (f.token a).isTrivial = false) (hkind : (f.kind a).closing? = none) (hnext : f.next? a = some stop) :
    f.LeadsTo a i := by
  induction h with
  | here =>
      have hbounds := f.next?_bounds hnext
      omega
  | @pass i j hlead hj hrest ih =>
      by_cases heq : i = a
      · exact heq ▸ .here
      · exact .pass hlead hj (ih (hf.le_of_next?_leadEnd hj (by omega) hsig hkind hnext hrest.le))

/-- **The ellipses of a parameter** are those that its reading comes to. -/
theorem isVariadic_iff_passes (h : f.LeadsTo stop i) (hstop : ¬ f.isLead stop) :
    (f.parameterFrom isRef isVariadic i).isVariadic
      ↔ isVariadic ∨ ∃ e, f.LeadsTo e i ∧ e < stop ∧ f.kind e = .ellipsis := by
  induction h generalizing isRef isVariadic with
  | here =>
      rw [parameterFrom_of_not_lead hstop]
      refine ⟨.inl, fun hmark => hmark.resolve_right ?_⟩
      rintro ⟨e, he, hlt, _⟩
      exact absurd he.le (Nat.not_le_of_lt hlt)
  | @pass i j hlead hnext hrest ih =>
      have hij := lt_of_next?_leadEnd hnext
      have hjs := hrest.le
      rw [parameterFrom_of_lead hlead hnext, ih, Bool.or_eq_true_iff, beq_iff_eq]
      constructor
      · rintro ((hseen | hkind) | ⟨e, he, hlt, hkind⟩)
        · exact .inl hseen
        · exact .inr ⟨i, .here, by omega, hkind⟩
        · exact .inr ⟨e, .pass hlead hnext he, hlt, hkind⟩
      · rintro (hseen | ⟨e, he, hlt, hkind⟩)
        · exact .inl (.inl hseen)
        · cases he with
          | here => exact .inl (.inr hkind)
          | pass _ hnext' he =>
              obtain rfl := Option.some.inj (hnext.symm.trans hnext')
              exact .inr ⟨e, he, hlt, hkind⟩

/-- **The ampersands that are marks** of a parameter are those that its reading comes to and that the variable or an
    ellipsis directly follows. -/
theorem isRef_iff_passes (h : f.LeadsTo stop i) (hstop : ¬ f.isLead stop) :
    (f.parameterFrom isRef isVariadic i).isRef ↔ isRef ∨ ∃ a b, f.LeadsTo a i ∧ a < stop ∧ f.isChar a '&'
      ∧ f.next? a = some b ∧ (f.kind b = .var ∨ f.kind b = .ellipsis) := by
  induction h generalizing isRef isVariadic with
  | here =>
      rw [parameterFrom_of_not_lead hstop]
      refine ⟨.inl, fun hmark => hmark.resolve_right ?_⟩
      rintro ⟨a, _, ha, hlt, _⟩
      exact absurd ha.le (Nat.not_le_of_lt hlt)
  | @pass i j hlead hnext hrest ih =>
      have hij := lt_of_next?_leadEnd hnext
      have hjs := hrest.le
      rw [parameterFrom_of_lead hlead hnext, ih]
      simp only [Bool.or_eq_true, Bool.and_eq_true, beq_iff_eq]
      constructor
      · rintro ((hseen | ⟨hamp, hkind⟩) | ⟨a, b, ha, hmark⟩)
        · exact .inl hseen
        · rw [leadEnd_of_ampersand hamp] at hnext
          exact .inr ⟨i, j, .here, by omega, hamp, hnext, hkind⟩
        · exact .inr ⟨a, b, .pass hlead hnext ha, hmark⟩
      · rintro (hseen | ⟨a, b, ha, hlt, hamp, hab, hkind⟩)
        · exact .inl (.inl hseen)
        · cases ha with
          | here =>
              rw [leadEnd_of_ampersand hamp, hab] at hnext
              obtain rfl := Option.some.inj hnext
              exact .inl (.inr ⟨hamp, hkind⟩)
          | pass _ hnext' ha =>
              obtain rfl := Option.some.inj (hnext.symm.trans hnext')
              exact .inr ⟨a, b, ha, hlt, hamp, hab, hkind⟩

end LeadsTo

end TokenStream

end Unassigned
