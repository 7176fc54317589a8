import Unassigned.Proofs.Nesting

/-!
# `Proofs.Search` — where a statement ends

A search outside groups goes from a place on, jumps over every group that opens on its way, and stops at the
first token that it looks for. In a well-nested stream such searches are **nested** too: one that starts
between the start and the end of another one ends no later (`searchOutside?_le`). For the ends of statements
this means that a statement inside another one, such as one in the body of a closure, ends inside it.
-/

namespace Unassigned

namespace TokenStream

variable {f : TokenStream}
variable {i j k : Nat}

/-! ## The next significant token -/

theorem nextFrom?_eq_some : f.nextFrom? i = some j ↔
    i ≤ j ∧ j < f.size ∧ (f.token j).isTrivial = false
      ∧ ∀ k, i ≤ k → k < j → (f.token k).isTrivial = true := by
  fun_induction nextFrom? f i with
  | case1 i hi htriv ih =>
      rw [ih]
      constructor
      · rintro ⟨hij, hj, hsig, hall⟩
        refine ⟨by omega, hj, hsig, fun k hik hkj => ?_⟩
        by_cases hk : k = i
        · rwa [hk]
        · exact hall k (by omega) hkj
      · rintro ⟨hij, hj, hsig, hall⟩
        have hne : i ≠ j := by rintro rfl; simp [htriv] at hsig
        exact ⟨by omega, hj, hsig, fun k hik hkj => hall k (by omega) hkj⟩
  | case2 i hi htriv =>
      constructor
      · rintro h
        obtain rfl : i = j := by simpa using h
        exact ⟨Nat.le_refl i, hi, by simpa using htriv, fun k hik hki => by omega⟩
      · rintro ⟨hij, hj, hsig, hall⟩
        by_cases hne : i = j
        · rw [hne]
        · have := hall i (Nat.le_refl i) (by omega)
          simp [this] at htriv
  | case3 i hi =>
      constructor
      · intro h; simp at h
      · rintro ⟨hij, hj, _⟩; omega

theorem nextFrom?_eq_none : f.nextFrom? i = none ↔
    ∀ k, i ≤ k → k < f.size → (f.token k).isTrivial = true := by
  fun_induction nextFrom? f i with
  | case1 i hi htriv ih =>
      rw [ih]
      constructor
      · intro hall k hik hk
        by_cases hki : k = i
        · rwa [hki]
        · exact hall k (by omega) hk
      · exact fun hall k hik hk => hall k (by omega) hk
  | case2 i hi htriv =>
      constructor
      · intro h; simp at h
      · intro hall
        have := hall i (Nat.le_refl i) hi
        simp [this] at htriv
  | case3 i hi =>
      constructor
      · intro _ k hik hk; omega
      · exact fun _ => rfl

/-- The same token is next from all places before it. -/
theorem next?_of_between (h : f.next? i = some k) (hij : i ≤ j) (hjk : j < k) : f.next? j = some k := by
  obtain ⟨_, hk, hsig, hall⟩ := nextFrom?_eq_some.mp h
  exact nextFrom?_eq_some.mpr ⟨hjk, hk, hsig, fun m hm hmk => hall m (by omega) hmk⟩

/-- No significant token is passed. -/
theorem le_of_next? (h : f.next? i = some j) (hik : i < k) (hsig : (f.token k).isTrivial = false) : j ≤ k := by
  obtain ⟨_, _, _, hall⟩ := nextFrom?_eq_some.mp h
  rcases Nat.lt_or_ge k j with hlt | hle
  · have := hall k hik hlt
    simp [this] at hsig
  · exact hle

theorem next?_isSome_of_lt (hik : i < k) (hk : k < f.size) (hsig : (f.token k).isTrivial = false) :
    ∃ j, f.next? i = some j := by
  cases h : f.next? i with
  | some j => exact ⟨j, rfl⟩
  | none =>
      have := nextFrom?_eq_none.mp h k hik hk
      simp [this] at hsig

/-! ## The last significant token -/

/-- The last significant token before a place, by what stands between them. -/
theorem prev?_eq_some (hji : j < i) (hsig : (f.token j).isTrivial = false)
    (hall : ∀ m, j < m → m < i → (f.token m).isTrivial = true) : f.prev? i = some j := by
  induction i with
  | zero => omega
  | succ i ih =>
      rw [TokenStream.prev?]
      by_cases hij : j = i
      · rw [← hij, hsig]
        rfl
      · rw [hall i (by omega) (by omega), if_pos rfl]
        exact ih (by omega) fun m hm hmi => hall m hm (by omega)

theorem prev?_eq_none (hall : ∀ m < i, (f.token m).isTrivial = true) : f.prev? i = none := by
  induction i with
  | zero => rfl
  | succ i ih =>
      rw [TokenStream.prev?, hall i (by omega), if_pos rfl]
      exact ih fun m hm => hall m (by omega)

/-- What stands before a place. -/
theorem prev?_bounds (h : f.prev? i = some j) :
    j < i ∧ (f.token j).isTrivial = false ∧ ∀ m, j < m → m < i → (f.token m).isTrivial = true := by
  induction i with
  | zero => cases h
  | succ i ih =>
      rw [TokenStream.prev?] at h
      split at h
      · next htrivial =>
          obtain ⟨hlt, hsig, hall⟩ := ih h
          refine ⟨by omega, hsig, fun m hm hmi => ?_⟩
          by_cases heq : m = i
          · rwa [heq]
          · exact hall m hm (by omega)
      · next htrivial =>
          obtain rfl := Option.some.inj h
          exact ⟨Nat.lt_succ_self i, by simpa using htrivial, fun m hm hmi => by omega⟩

/-- A significant token is next to the one before it. -/
theorem next?_of_prev? (h : f.prev? j = some i) (hsig : (f.token j).isTrivial = false) (hj : j < f.size) :
    f.next? i = some j := by
  obtain ⟨hlt, _, hall⟩ := prev?_bounds h
  exact nextFrom?_eq_some.mpr ⟨hlt, hj, hsig, hall⟩

/-- The significant token before the next one is the one that it is next to. -/
theorem prev?_of_next? (h : f.next? i = some j) (hsig : (f.token i).isTrivial = false) : f.prev? j = some i := by
  obtain ⟨hlt, _, _, hall⟩ := nextFrom?_eq_some.mp h
  exact prev?_eq_some hlt hsig hall

/-! ## Places by their kinds -/

theorem lt_size_of_kind (h : f.kind i ≠ .inlineHtml) : i < f.size := by
  rcases Nat.lt_or_ge i f.size with hlt | hge
  · exact hlt
  · refine absurd ?_ h
    unfold kind token
    rw [Array.getD_eq_getD_getElem?, Array.getElem?_eq_none hge]
    rfl

theorem WellNested.closer?_of_kind (hf : f.WellNested) (h : (f.kind i).closer? = none) : f.closer? i = none := by
  cases hc : f.closer? i with
  | none => rfl
  | some k =>
      obtain ⟨_, hclosing, hsame⟩ := hf.sorts hc
      rw [← hsame, h] at hclosing
      simp at hclosing

theorem isTrivial_of_kind {kind : Kind} (h : f.kind i = kind) (hkind : kind.isTrivial = false) :
    (f.token i).isTrivial = false := by
  rw [Token.isTrivial, show (f.token i).kind = kind from h, hkind]

theorem isTrivial_of_closing (h : (f.kind i).closing?.isSome) : (f.token i).isTrivial = false := by
  unfold kind at h
  unfold Token.isTrivial
  generalize (f.token i).kind = kind at h
  cases kind <;> first | rfl | simp [Kind.closing?] at h

theorem isTrivial_of_opening (h : (f.kind i).closer?.isSome) : (f.token i).isTrivial = false := by
  unfold kind at h
  unfold Token.isTrivial
  generalize (f.token i).kind = kind at h
  cases kind <;> first | rfl | simp [Kind.closer?] at h

/-! ## Searches -/

variable {jumps found : Nat → Bool}

theorem search?_of_none (h : f.next? i = none) : f.search? jumps found i = none := by
  rw [search?]
  split
  · rfl
  next j hj => rw [h] at hj; simp at hj

theorem search?_of_next (h : f.next? i = some j) : f.search? jumps found i
    = if found j then some j else f.search? jumps found (if jumps j then f.skipGroup j else j) := by
  rw [search?]
  split
  next hnone => rw [h] at hnone; simp at hnone
  next k hk =>
    obtain rfl : j = k := by simpa [h] using hk
    rfl

theorem searchOutside?_of_none (h : f.next? i = none) : f.searchOutside? found i = none :=
  search?_of_none h

theorem searchOutside?_of_found (h : f.next? i = some j) (hfound : found j) : f.searchOutside? found i = some j := by
  rw [searchOutside?, search?_of_next h, if_pos hfound]

theorem searchOutside?_of_not_found (h : f.next? i = some j) (hfound : ¬ found j) :
    f.searchOutside? found i = f.searchOutside? found (f.skipGroup j) := by
  rw [searchOutside?, search?_of_next h, if_neg hfound]
  rfl

theorem search?_found (h : f.search? jumps found i = some j) : found j ∧ (f.token j).isTrivial = false := by
  fun_induction search? f jumps found i with
  | case1 => simp at h
  | case2 i k hnext hfound =>
      obtain rfl : k = j := by simpa using h
      exact ⟨hfound, (nextFrom?_eq_some.mp hnext).2.2.1⟩
  | case3 i k hnext hfound ih => exact ih h

/-- A search inside a group ends in the group, or goes on behind it. -/
theorem WellNested.searchOutside?_inside (hf : f.WellNested) {o c : Nat}
    (hgroup : f.closer? o = some c) (i : Nat) (hoi : o ≤ i) (hic : i < c) :
    (∃ j, f.searchOutside? found i = some j ∧ j ≤ c)
      ∨ f.searchOutside? found i = f.searchOutside? found c := by
  have hsig := isTrivial_of_closing (hf.sorts hgroup).2.1
  obtain ⟨j, hj⟩ := next?_isSome_of_lt hic (hf.closer_lt hgroup) hsig
  have hjc := le_of_next? hj hic hsig
  have hij := (f.next?_bounds hj).1
  by_cases hfound : found j
  · exact .inl ⟨j, searchOutside?_of_found hj hfound, hjc⟩
  · rw [searchOutside?_of_not_found hj hfound]
    by_cases hlt : j < c
    · have hskip := hf.nested hgroup (by omega) hlt
      have hle := f.le_skipGroup j
      exact hf.searchOutside?_inside hgroup (f.skipGroup j) (by omega) hskip
    · obtain rfl : j = c := by omega
      rw [skipGroup_of_none (hf.closer_none hgroup)]
      exact .inr rfl
termination_by c - i

/-- **Searches are nested:** one that starts inside another one ends no later. -/
theorem WellNested.searchOutside?_le (hf : f.WellNested) {p q e : Nat}
    (h : f.searchOutside? found p = some e) (hpq : p ≤ q) (hqe : q < e) :
    ∃ e', f.searchOutside? found q = some e' ∧ e' ≤ e := by
  cases hj : f.next? p with
  | none => rw [searchOutside?_of_none hj] at h; simp at h
  | some j =>
      have hpj := (f.next?_bounds hj).1
      have hjle := f.le_skipGroup j
      by_cases hqj : q < j
      · -- both searches take the same way
        have hq := next?_of_between hj hpq hqj
        by_cases hfound : found j
        · rw [searchOutside?_of_found hj hfound] at h
          rw [searchOutside?_of_found hq hfound]
          exact ⟨e, h, Nat.le_refl e⟩
        · rw [searchOutside?_of_not_found hj hfound] at h
          rw [searchOutside?_of_not_found hq hfound]
          exact ⟨e, h, Nat.le_refl e⟩
      · have hfound : ¬ found j := by
          intro hfound
          rw [searchOutside?_of_found hj hfound] at h
          obtain rfl : j = e := by simpa using h
          omega
        rw [searchOutside?_of_not_found hj hfound] at h
        by_cases hqs : f.skipGroup j ≤ q
        · exact hf.searchOutside?_le h hqs hqe
        · -- the place is in the group that opens at `j`
          cases hgroup : f.closer? j with
          | none => rw [skipGroup_of_none hgroup] at hqs; omega
          | some c =>
              rw [skipGroup_of_closer hgroup] at h hqs
              have hce := (f.search?_bounds h).1
              rcases hf.searchOutside?_inside hgroup q (by omega) (by omega) with ⟨e', he', hle⟩ | heq
              · exact ⟨e', he', by omega⟩
              · exact ⟨e, by rw [heq, h], Nat.le_refl e⟩
termination_by f.size - p
decreasing_by
  have hj' := (f.next?_bounds hj)
  omega

/-! ## The end of a search -/

/-- Where a search outside groups ends, at the latest with the file. -/
def searchEnd (f : TokenStream) (found : Nat → Bool) (i : Nat) : Nat :=
  (f.searchOutside? found i).getD f.size

theorem lt_searchEnd (hi : i < f.size) : i < f.searchEnd found i := by
  unfold searchEnd
  cases h : f.searchOutside? found i with
  | none => exact hi
  | some j => exact (f.search?_bounds h).1

theorem searchEnd_of_found (h : f.next? i = some j) (hfound : found j) : f.searchEnd found i = j := by
  rw [searchEnd, searchOutside?_of_found h hfound, Option.getD_some]

theorem searchEnd_of_not_found (h : f.next? i = some j) (hfound : ¬ found j) :
    f.searchEnd found i = f.searchEnd found (f.skipGroup j) := by
  rw [searchEnd, searchOutside?_of_not_found h hfound, searchEnd]

/-- A search ends with the file or at a token that it looks for. -/
theorem searchEnd_found (i : Nat) : f.searchEnd found i = f.size
    ∨ (found (f.searchEnd found i) ∧ (f.token (f.searchEnd found i)).isTrivial = false) := by
  unfold searchEnd
  cases h : f.searchOutside? found i with
  | none => exact .inl rfl
  | some e => exact .inr (search?_found h)

/-- **A search and a token on its way.** The search ends at the token or before it, or comes upon it and
    goes on behind its group, or jumps over it with a group that holds it. -/
theorem WellNested.searchEnd_cases (hf : f.WellNested) (found : Nat → Bool) {i m : Nat} (him : i < m)
    (hm : m < f.size) (hsig : (f.token m).isTrivial = false) :
    f.searchEnd found i ≤ m
      ∨ (¬ found m ∧ f.skipGroup m < f.searchEnd found i)
      ∨ ∃ o c, i < o ∧ o < m ∧ f.closer? o = some c ∧ m ≤ c ∧ c < f.searchEnd found i := by
  obtain ⟨j, hj⟩ := next?_isSome_of_lt him hm hsig
  have hij := (f.next?_bounds hj).1
  have hjm := le_of_next? hj him hsig
  by_cases hfound : found j
  · exact .inl (by rwa [searchEnd_of_found hj hfound])
  · rw [searchEnd_of_not_found hj hfound]
    cases hgroup : f.closer? j with
    | none =>
        rw [skipGroup_of_none hgroup]
        by_cases heq : j = m
        · subst heq
          rw [skipGroup_of_none hgroup]
          exact .inr (.inl ⟨hfound, lt_searchEnd hm⟩)
        · rcases hf.searchEnd_cases found (show j < m by omega) hm hsig with hle | hon | ⟨o, c, hjo, hrest⟩
          · exact .inl hle
          · exact .inr (.inl hon)
          · exact .inr (.inr ⟨o, c, by omega, hrest⟩)
    | some c =>
        have hclose := hf.closer_lt hgroup
        rw [skipGroup_of_closer hgroup]
        by_cases hmc : m ≤ c
        · by_cases heq : j = m
          · subst heq
            rw [skipGroup_of_closer hgroup]
            exact .inr (.inl ⟨hfound, lt_searchEnd hclose⟩)
          · exact .inr (.inr ⟨j, c, hij, by omega, hgroup, hmc, lt_searchEnd hclose⟩)
        · have hjc := (closer?_eq_some.mp hgroup).2
          rcases hf.searchEnd_cases found (show c < m by omega) hm hsig with hle | hon | ⟨o, d, hco, hrest⟩
          · exact .inl hle
          · exact .inr (.inl hon)
          · exact .inr (.inr ⟨o, d, by omega, hrest⟩)
termination_by m - i

/-- A search from before a group ends before the group or behind it. -/
theorem WellNested.searchEnd_group (hf : f.WellNested) (found : Nat → Bool) {o c : Nat} (hio : i < o)
    (hgroup : f.closer? o = some c) : f.searchEnd found i ≤ o ∨ c < f.searchEnd found i := by
  have hsig : (f.token o).isTrivial = false := by
    obtain ⟨_, hclosing, hsort⟩ := hf.sorts hgroup
    exact isTrivial_of_opening (by rwa [hsort])
  have hoc := (closer?_eq_some.mp hgroup).2
  have hclose := hf.closer_lt hgroup
  rcases hf.searchEnd_cases found hio (by omega) hsig
    with hle | ⟨_, hlt⟩ | ⟨o', c', _, ho', hgroup', hle, hlt⟩
  · exact .inl hle
  · rw [skipGroup_of_closer hgroup] at hlt
    exact .inr hlt
  · -- the group is inside another one, over which the search jumps
    have hne : o ≠ c' := by
      rintro rfl
      rw [hf.closer_none hgroup'] at hgroup
      simp at hgroup
    have hinner := hf.nested hgroup' ho' (by omega)
    rw [skipGroup_of_closer hgroup] at hinner
    exact .inr (by omega)

/-! ## Statements -/

theorem isCharOf_iff {cs : List Char} : f.isCharOf i cs ↔ ∃ c ∈ cs, f.kind i = .char c := by
  unfold isCharOf Token.isCharOf kind
  split
  next c hc => simp [hc]
  next hc =>
    constructor
    · intro h; simp at h
    · rintro ⟨c, _, h⟩; exact absurd h (hc c)

theorem isChar_iff {c : Char} : f.isChar i c ↔ f.kind i = .char c := by
  simp [isChar, Token.isChar, kind]

/-- A token at which a statement can end. -/
def endsStatement (f : TokenStream) (i : Nat) : Bool :=
  f.kind i == .closeTag || f.isCharOf i [';', '\x7d']

theorem endsStatement_iff : f.endsStatement i
    ↔ f.kind i = .closeTag ∨ f.kind i = .char ';' ∨ f.kind i = .char '\x7d' := by
  simp [endsStatement, isCharOf_iff]

theorem statementEnd_eq (i : Nat) : f.statementEnd i = f.searchEnd f.endsStatement i :=
  rfl

/-- A statement ends with the file or at a token that can end it. -/
theorem statementEnd_cases (p : Nat) : f.statementEnd p = f.size
    ∨ (f.endsStatement (f.statementEnd p) ∧ (f.token (f.statementEnd p)).isTrivial = false) :=
  searchEnd_found p

/-- The statement goes on over a token that neither ends it nor opens a group. -/
theorem statementEnd_of_next (h : f.next? i = some j) (hend : f.endsStatement j = false) (hgroup : f.closer? j = none) :
    f.statementEnd i = f.statementEnd j := by
  rw [statementEnd_eq, searchEnd_of_not_found h (by simp [hend]), skipGroup_of_none hgroup]
  rfl

theorem statementEnd_le_size (i : Nat) : f.statementEnd i ≤ f.size := by
  unfold statementEnd
  cases h : f.statementEnd? i with
  | none => simp
  | some j => have := f.search?_bounds h; simp; omega

/-- **A statement inside another one ends inside it.** -/
theorem WellNested.statementEnd_le (hf : f.WellNested) {p q : Nat} (hpq : p ≤ q)
    (hq : q < f.statementEnd p) : f.statementEnd q ≤ f.statementEnd p := by
  cases hp : f.statementEnd? p with
  | none =>
      rw [show f.statementEnd p = f.size by simp [statementEnd, hp]]
      exact f.statementEnd_le_size q
  | some e =>
      have hend : f.statementEnd p = e := by simp [statementEnd, hp]
      rw [hend] at hq ⊢
      obtain ⟨e', he', hle⟩ := hf.searchOutside?_le hp hpq hq
      have hend' : f.statementEnd q = e' := by
        rw [statementEnd, show f.statementEnd? q = some e' from he', Option.getD_some]
      omega

end TokenStream

end Unassigned
