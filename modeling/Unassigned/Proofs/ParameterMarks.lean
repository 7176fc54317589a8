import Unassigned.Proofs.ArgumentLists

/-!
# `Proofs.ParameterMarks` — the two marks of a declared parameter

The reading of a parameter stops at its variable, or at a token that cannot stand before one
(`Proofs.ParameterReading`). Where it stops, the marks are told by what stands directly before (`marks_of_leadsTo`):
the parameter is **variadic** if that is an ellipsis, and **by reference** if an ampersand stands directly before the
variable or before the ellipsis. The ampersands of a type are no marks.
-/

namespace Unassigned

namespace TokenStream

variable {f : TokenStream} {isRef isVariadic : Bool} {i j stop : Nat}

/-! ## The marks by what stands at the end of the way -/

/-- The ellipses that are read on the way to `stop` stand directly before it. -/
def EllipsisLast (f : TokenStream) (i stop : Nat) : Prop :=
  ∀ e, f.LeadsTo e i → e < stop → f.kind e = .ellipsis → f.next? e = some stop

/-- **The ellipsis** is seen if and only if it stands directly before the end. -/
theorem LeadsTo.isVariadic_iff (h : f.LeadsTo stop i) (hf : f.WellNested) (hstop : ¬ f.isLead stop)
    (hlast : f.EllipsisLast i stop) : (f.parameterFrom isRef isVariadic i).isVariadic
      ↔ isVariadic ∨ ∃ e, i ≤ e ∧ f.kind e = .ellipsis ∧ f.next? e = some stop := by
  rw [h.isVariadic_iff_passes hstop]
  refine or_congr_right ⟨?_, ?_⟩
  · rintro ⟨e, he, hlt, hkind⟩
    exact ⟨e, he.le, hkind, hlast e he hlt hkind⟩
  · rintro ⟨e, hle, hkind, hnext⟩
    have hway := h.of_next? hf hle (isTrivial_of_kind hkind rfl) (by rw [hkind]; rfl) hnext
    exact ⟨e, hway, (f.next?_bounds hnext).1, hkind⟩

/-- **The ampersand** is a mark if and only if it stands directly before the variable at the end, or before the
    ellipsis that stands there. -/
theorem LeadsTo.isRef_iff (h : f.LeadsTo stop i) (hf : f.WellNested) (hstop : ¬ f.isLead stop)
    (hlast : f.EllipsisLast i stop) : (f.parameterFrom isRef isVariadic i).isRef
      ↔ isRef ∨ ∃ a b, i ≤ a ∧ f.isChar a '&' ∧ f.next? a = some b
        ∧ (b = stop ∧ f.kind stop = .var ∨ f.kind b = .ellipsis ∧ f.next? b = some stop) := by
  rw [h.isRef_iff_passes hstop]
  refine or_congr_right ⟨?_, ?_⟩
  · rintro ⟨a, b, ha, _, hamp, hab, hkind⟩
    -- the reading passes the ampersand, so the token behind it is on the way
    have hb : f.LeadsTo b i := ha.snoc (isLead_of_ampersand hamp) (by rw [leadEnd_of_ampersand hamp]; exact hab)
    refine ⟨a, b, ha.le, hamp, hab, ?_⟩
    rcases hkind with hvar | hellipsis
    · obtain rfl := (hb.of_on_way h hstop).eq_of_not_lead (not_isLead_of_var hvar)
      exact .inl ⟨rfl, hvar⟩
    · have hne : b ≠ stop := by
        rintro rfl
        exact hstop (isLead_of_ellipsis hellipsis)
      have hle := (hb.of_on_way h hstop).le
      exact .inr ⟨hellipsis, hlast b hb (by omega) hellipsis⟩
  · rintro ⟨a, b, hle, hamp, hab, hend⟩
    have hkind := isChar_iff.mp hamp
    have hlt := (f.next?_bounds hab).1
    have hway : f.LeadsTo b i ∧ b ≤ stop ∧ (f.kind b = .var ∨ f.kind b = .ellipsis) := by
      rcases hend with ⟨rfl, hvar⟩ | ⟨hellipsis, hnext⟩
      · exact ⟨h, Nat.le_refl b, .inl hvar⟩
      · have hb := h.of_next? hf (by omega) (isTrivial_of_kind hellipsis rfl) (by rw [hellipsis]; rfl) hnext
        exact ⟨hb, Nat.le_of_lt (f.next?_bounds hnext).1, .inr hellipsis⟩
    have ha := hway.1.of_next? hf hle (isTrivial_of_kind hkind rfl) (by rw [hkind]; rfl) hab
    exact ⟨a, b, ha, by omega, hamp, hab, hway.2.2⟩

/-! ## What stands directly before a place -/

/-- An ampersand stands directly before the variable here, or directly before the ellipsis that stands before this
    place. -/
def referenceBefore (f : TokenStream) (i : Nat) : Bool :=
  match f.prev? i with
  | none => false
  | some e => if f.kind e == .ellipsis then f.prevIs e (.char '&') else f.isChar e '&' && f.kind i == .var

theorem prevIs_iff_next? {kind : Kind} (hkind : kind.isTrivial = false)
    (hi : i < f.size ∧ (f.token i).isTrivial = false) :
    f.prevIs i kind ↔ ∃ e, f.kind e = kind ∧ f.next? e = some i := by
  constructor
  · intro h
    obtain ⟨e, hprev, he⟩ := (Option.any_eq_true _ _).mp h
    exact ⟨e, by simpa using he, next?_of_prev? hprev hi.2 hi.1⟩
  · rintro ⟨e, he, hnext⟩
    rw [prevIs, prev?_of_next? hnext (isTrivial_of_kind he hkind)]
    simp [he]

theorem referenceBefore_iff (hi : i < f.size ∧ (f.token i).isTrivial = false) :
    f.referenceBefore i ↔ ∃ a b, f.isChar a '&' ∧ f.next? a = some b
      ∧ (b = i ∧ f.kind i = .var ∨ f.kind b = .ellipsis ∧ f.next? b = some i) := by
  unfold referenceBefore
  constructor
  · intro h
    split at h
    · cases h
    · next e hprev =>
        have hnext := next?_of_prev? hprev hi.2 hi.1
        split at h
        · next hkind =>
            have hkind : f.kind e = .ellipsis := by simpa using hkind
            have he : e < f.size := Nat.lt_trans (f.next?_bounds hnext).1 hi.1
            obtain ⟨a, hamp, ha⟩ := (prevIs_iff_next? rfl ⟨he, isTrivial_of_kind hkind rfl⟩).mp h
            exact ⟨a, e, isChar_iff.mpr hamp, ha, .inr ⟨hkind, hnext⟩⟩
        · obtain ⟨hamp, hvar⟩ := Bool.and_eq_true_iff.mp h
          exact ⟨e, i, hamp, hnext, .inl ⟨rfl, by simpa using hvar⟩⟩
  · rintro ⟨a, b, hamp, hnext, ⟨rfl, hvar⟩ | ⟨hkind, hb⟩⟩
    · have ha := isChar_iff.mp hamp
      rw [prev?_of_next? hnext (isTrivial_of_kind ha rfl)]
      simp [ha, hamp, hvar]
    · have hsig := isTrivial_of_kind hkind rfl
      rw [prev?_of_next? hb hsig]
      simp only [hkind, beq_self_eq_true, if_true]
      exact (prevIs_iff_next? rfl ⟨(f.next?_bounds hnext).2, hsig⟩).mpr ⟨a, isChar_iff.mp hamp, hnext⟩

/-! ## The marks of a listed parameter -/

/-- What stands directly before a token of a parameter belongs to the parameter, unless it is the mark that the
    parameter starts behind. -/
theorem le_of_next?_of_listMark {s first e t : Nat} (hmark : isListMark (f.kind s)) (hs : f.next? s = some first)
    (hfirst : first ≤ t) (ht : f.next? e = some t) (hsig : (f.token e).isTrivial = false)
    (hkind : ¬ isListMark (f.kind e)) : first ≤ e := by
  rcases Nat.lt_or_ge e first with hlt | hge
  · obtain ⟨_, _, hfirstSig, _⟩ := nextFrom?_eq_some.mp hs
    obtain rfl : t = first := Nat.le_antisymm (le_of_next? ht hlt hfirstSig) hfirst
    have hsame := (prev?_of_next? hs (isTrivial_of_listMark hmark)).symm.trans (prev?_of_next? ht hsig)
    obtain rfl := Option.some.inj hsame
    exact absurd hmark hkind
  · exact hge

/-- **The marks of a parameter** are told by what stands directly before the place where its reading stops. -/
theorem WellNested.marks_of_leadsTo (hf : f.WellNested) {paren first : Nat} (hparen : f.isChar paren '(')
    (hfirst : first ∈ f.arguments paren) (h : f.LeadsTo stop first) (hstop : ¬ f.isLead stop)
    (hlast : f.EllipsisLast first stop) :
    (f.parameterAt first).isRef = f.referenceBefore stop
      ∧ (f.parameterAt first).isVariadic = f.prevIs stop .ellipsis := by
  obtain ⟨s, hmark, hs⟩ := exists_listMark_of_mem_arguments hparen hfirst
  obtain ⟨_, hlt, hsig, _⟩ := nextFrom?_eq_some.mp hs
  have hend := h.significant ⟨hlt, hsig⟩
  have hle := h.le
  -- an ellipsis directly before the end, and an ampersand before either, are not the comma before the parameter
  have hellipsis : ∀ {e : Nat}, f.kind e = .ellipsis → f.next? e = some stop → first ≤ e := by
    intro e hkind hnext
    exact le_of_next?_of_listMark hmark hs hle hnext (isTrivial_of_kind hkind rfl) (by rw [hkind]; decide)
  constructor
  · rw [Bool.eq_iff_iff, parameterAt, h.isRef_iff hf hstop hlast, referenceBefore_iff hend]
    constructor
    · rintro (hseen | ⟨a, b, _, hamp⟩)
      · cases hseen
      · exact ⟨a, b, hamp⟩
    · rintro ⟨a, b, hamp, hab, hb⟩
      have hfirstb : first ≤ b := by
        rcases hb with ⟨rfl, _⟩ | ⟨hkind, hnext⟩
        · exact hle
        · exact hellipsis hkind hnext
      have hkind := isChar_iff.mp hamp
      have ha := le_of_next?_of_listMark hmark hs hfirstb hab (isTrivial_of_kind hkind rfl) (by rw [hkind]; decide)
      exact .inr ⟨a, b, ha, hamp, hab, hb⟩
  · rw [Bool.eq_iff_iff, parameterAt, h.isVariadic_iff hf hstop hlast, prevIs_iff_next? rfl hend]
    constructor
    · rintro (hseen | ⟨e, _, he⟩)
      · cases hseen
      · exact ⟨e, he⟩
    · rintro ⟨e, hkind, hnext⟩
      exact .inr ⟨e, hellipsis hkind hnext, hkind, hnext⟩

end TokenStream

end Unassigned
