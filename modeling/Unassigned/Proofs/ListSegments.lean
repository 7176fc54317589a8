import Unassigned.Proofs.ArgumentLists
import Unassigned.Proofs.SearchEnds

/-!
# `Proofs.ListSegments` — a list is split at its own commas

The elements of a list in parentheses are found by a walk that jumps from an opening bracket to its partner and never
counts how deep it is. What it finds is said here without the walk: the places between the parentheses, cut short at the
first closing tag outside nested groups, are split at the commas outside nested groups (`listSegments`), and each
segment gives its first significant token, if it has one (`firstOf?`).

The walk stands for the segments of the places from its own place on (`elementFirsts`). A step passes a stretch of
places that neither separate nor cut the list: white space, or a nested group with all that is inside it. That the walk
stays between the parentheses and misses no comma follows from the nesting of the groups alone.
-/

namespace Unassigned

namespace TokenStream

variable {f : TokenStream} {p q : Nat}
variable {i a j : Nat} {g : TokenStream}

/-! ## Segments -/

instance (i j : Nat) : Decidable (f.InsideAfter i j) :=
  decidable_of_iff (∃ o < j, i < o ∧ (f.partner? o).any fun c => decide (j < c)) <| by
    constructor
    · rintro ⟨o, hoj, hio, hany⟩
      obtain ⟨c, hpartner, hjc⟩ := (Option.any_eq_true _ _).mp hany
      exact ⟨o, c, hpartner, hio, hoj, of_decide_eq_true hjc⟩
    · rintro ⟨o, c, hpartner, hio, hoj, hjc⟩
      exact ⟨o, hoj, hio, (Option.any_eq_true _ _).mpr ⟨c, hpartner, decide_eq_true hjc⟩⟩

/-- A closing tag that ends the list which opens at `p`. -/
def cutsList (f : TokenStream) (p i : Nat) : Bool :=
  f.kind i == .closeTag && !decide (f.InsideAfter p i)

/-- A comma of the list that opens at `p`. -/
def separatesList (f : TokenStream) (p i : Nat) : Bool :=
  f.isChar i ',' && !decide (f.InsideAfter p i)

/-- The places up to a closing tag of the list, split at its commas. -/
def segments (f : TokenStream) (p : Nat) (places : List Nat) : List (List Nat) :=
  (places.takeWhile fun i => !f.cutsList p i).splitOnP (f.separatesList p)

/-- The segments of the list in the parentheses at `p` and `q`. -/
def listSegments (f : TokenStream) (p q : Nat) : List (List Nat) :=
  f.segments p (List.range' (p + 1) (q - (p + 1)))

/-- The first significant token of a segment. -/
def firstOf? (f : TokenStream) (segment : List Nat) : Option Nat :=
  segment.find? fun i => !(f.token i).isTrivial

/-- The first tokens of the segments, without the first segment unless the places start a new one. -/
def elementFirsts (f : TokenStream) (p : Nat) (fresh : Bool) (places : List Nat) : List Nat :=
  (if fresh then f.segments p places else (f.segments p places).tail).filterMap f.firstOf?

section

variable {i : Nat} {places : List Nat}

theorem segments_ne_nil (p : Nat) (places : List Nat) : f.segments p places ≠ [] :=
  List.splitOnP_ne_nil _ _

theorem segments_of_cuts (h : f.cutsList p i) : f.segments p (i :: places) = [[]] := by
  rw [segments, List.takeWhile_cons_of_neg (by simp [h])]
  exact List.splitOnP_nil

theorem segments_of_separates (hcuts : f.cutsList p i = false) (h : f.separatesList p i) :
    f.segments p (i :: places) = [] :: f.segments p places := by
  rw [segments, List.takeWhile_cons_of_pos (by simp [hcuts]), List.splitOnP_cons_eq_if_modifyHead, if_pos h]
  rfl

theorem segments_of_passes (hcuts : f.cutsList p i = false) (h : f.separatesList p i = false) :
    f.segments p (i :: places) = (f.segments p places).modifyHead (i :: ·) := by
  rw [segments, List.takeWhile_cons_of_pos (by simp [hcuts]), List.splitOnP_cons_eq_if_modifyHead, if_neg (by simp [h])]
  rfl

/-! ## One place -/

theorem elementFirsts_nil (fresh : Bool) : f.elementFirsts p fresh [] = [] := by
  cases fresh <;> rfl

theorem elementFirsts_of_cuts (fresh : Bool) (h : f.cutsList p i) : f.elementFirsts p fresh (i :: places) = [] := by
  unfold elementFirsts
  rw [segments_of_cuts h]
  cases fresh <;> rfl

theorem elementFirsts_of_separates (fresh : Bool) (hcuts : f.cutsList p i = false) (h : f.separatesList p i) :
    f.elementFirsts p fresh (i :: places) = f.elementFirsts p true places := by
  unfold elementFirsts
  rw [segments_of_separates hcuts h]
  cases fresh <;> rfl

/-- Inside a segment, any place that belongs to it can be passed. -/
theorem elementFirsts_of_passes (hcuts : f.cutsList p i = false) (h : f.separatesList p i = false) :
    f.elementFirsts p false (i :: places) = f.elementFirsts p false places := by
  obtain ⟨segment, more, hsegments⟩ := List.exists_cons_of_ne_nil (f.segments_ne_nil p places)
  unfold elementFirsts
  rw [segments_of_passes hcuts h, hsegments]
  rfl

/-- At the start of a segment, a significant place is its first one. -/
theorem elementFirsts_of_significant (hcuts : f.cutsList p i = false) (h : f.separatesList p i = false)
    (hsig : (f.token i).isTrivial = false) :
    f.elementFirsts p true (i :: places) = i :: f.elementFirsts p false places := by
  obtain ⟨segment, more, hsegments⟩ := List.exists_cons_of_ne_nil (f.segments_ne_nil p places)
  have hfirst : f.firstOf? (i :: segment) = some i := List.find?_cons_of_pos (by simp [hsig])
  unfold elementFirsts
  rw [segments_of_passes hcuts h, hsegments]
  exact List.filterMap_cons_some hfirst

/-- White space belongs to no element. -/
theorem elementFirsts_of_trivial (fresh : Bool) (h : (f.token i).isTrivial) :
    f.elementFirsts p fresh (i :: places) = f.elementFirsts p fresh places := by
  have hkind : (f.kind i).isTrivial := h
  have hcuts : f.cutsList p i = false := by
    have hne : f.kind i ≠ .closeTag := fun heq => by simp [heq, Kind.isTrivial] at hkind
    simp [cutsList, hne]
  have hseparates : f.separatesList p i = false := by
    have hne : ¬ f.isChar i ',' := fun heq => by simp [isChar_iff.mp heq, Kind.isTrivial] at hkind
    simp [separatesList, hne]
  cases fresh with
  | false => exact elementFirsts_of_passes hcuts hseparates
  | true =>
      obtain ⟨segment, more, hsegments⟩ := List.exists_cons_of_ne_nil (f.segments_ne_nil p places)
      have hfirst : f.firstOf? (i :: segment) = f.firstOf? segment := List.find?_cons_of_neg (by simp [h])
      unfold elementFirsts
      rw [segments_of_passes hcuts hseparates, hsegments]
      show List.filterMap f.firstOf? ((i :: segment) :: more) = List.filterMap f.firstOf? (segment :: more)
      rw [List.filterMap_cons, List.filterMap_cons, hfirst]

end

/-! ## A stretch of places -/

theorem range'_cons (h : i < q) : List.range' i (q - i) = i :: List.range' (i + 1) (q - (i + 1)) := by
  rw [show q - i = (q - (i + 1)) + 1 by omega, List.range'_succ]

/-- A stretch of places without effect can be left out. -/
theorem elementFirsts_skip {fresh : Bool} {a b : Nat} (hab : a ≤ b) (hbq : b ≤ q)
    (hskip : ∀ k, a ≤ k → k < b → ∀ places,
      f.elementFirsts p fresh (k :: places) = f.elementFirsts p fresh places) :
    f.elementFirsts p fresh (List.range' a (q - a)) = f.elementFirsts p fresh (List.range' b (q - b)) := by
  by_cases heq : a = b
  · rw [heq]
  · rw [range'_cons (show a < q by omega), hskip a (Nat.le_refl a) (by omega)]
    exact elementFirsts_skip (by omega) hbq fun k hk hkb => hskip k (by omega) hkb
termination_by b - a

/-- White space up to the next token. -/
theorem elementFirsts_next {fresh : Bool} (hnext : f.next? a = some j) (hjq : j ≤ q) :
    f.elementFirsts p fresh (List.range' (a + 1) (q - (a + 1))) = f.elementFirsts p fresh (List.range' j (q - j)) := by
  obtain ⟨haj, _, _, htrivial⟩ := nextFrom?_eq_some.mp hnext
  exact elementFirsts_skip haj hjq fun k hk hkj places => elementFirsts_of_trivial fresh (htrivial k hk hkj)

/-! ## The walk stays in the parentheses -/

/-- The first token after the start is outside. -/
theorem WellNested.outside_first (hf : f.WellNested) (hnext : f.next? p = some j) : f.OutsideAfter p j := by
  obtain ⟨_, _, _, htrivial⟩ := nextFrom?_eq_some.mp hnext
  apply outsideAfter_iff.mpr
  intro o c hpo hgroup hoj
  obtain ⟨_, hclosing, hsort⟩ := hf.sorts hgroup
  have hsig : (f.token o).isTrivial = false := isTrivial_of_opening (hsort ▸ hclosing)
  rw [htrivial o hpo hoj] at hsig
  cases hsig

/-- **From an outside place the walk comes to an outside place**, as the group that it jumps over is the only one that
    opens on the way. -/
theorem WellNested.outside_next (hf : f.WellNested) (hi : f.OutsideAfter p i)
    (hnext : f.next? (f.skipGroup i) = some j) : f.OutsideAfter p j := by
  obtain ⟨hlt, _⟩ := f.next?_bounds hnext
  have hle := f.le_skipGroup i
  apply outsideAfter_iff.mpr
  intro o c hpo hgroup hoj
  rcases Nat.lt_trichotomy o i with hoi | rfl | hio
  · have hci := outsideAfter_iff.mp hi o c hpo hgroup hoi
    omega
  · rw [skipGroup_of_closer hgroup] at hlt
    exact hlt
  · by_cases hbehind : f.skipGroup i < o
    · have hfirst := hf.outside_first hnext
      exact outsideAfter_iff.mp hfirst o c hbehind hgroup hoj
    · -- the group is inside the one that is jumped over
      cases houter : f.closer? i with
      | none =>
          rw [skipGroup_of_none houter] at hbehind
          omega
      | some k =>
          rw [skipGroup_of_closer houter] at hlt hbehind
          have hne : o ≠ k := by
            rintro rfl
            rw [hf.closer_none houter] at hgroup
            cases hgroup
          have hnested := hf.nested houter hio (by omega)
          rw [skipGroup_of_closer hgroup] at hnested
          omega

/-- No closing bracket stands outside the nested groups: its partner would open outside the parentheses. -/
theorem WellNested.closing?_of_outside (hf : f.WellNested)
    (hopened : ∀ k, (f.kind k).closing?.isSome → ∃ o, f.closer? o = some k) (hgroup : f.closer? p = some q)
    (hpi : p < i) (hiq : i < q) (hi : f.OutsideAfter p i) : (f.kind i).closing? = none := by
  cases hclosing : (f.kind i).closing? with
  | none => rfl
  | some c =>
      exfalso
      obtain ⟨o, ho⟩ := hopened i (Option.isSome_of_eq_some hclosing)
      rcases Nat.lt_trichotomy o p with hop | rfl | hpo
      · have hnested := hf.nested ho hop hpi
        rw [skipGroup_of_closer hgroup] at hnested
        omega
      · have heq := Option.some.inj (ho.symm.trans hgroup)
        omega
      · have hlt := outsideAfter_iff.mp hi o i hpo ho (closer?_eq_some.mp ho).2
        omega

/-- The rest of an element up to the next place of the walk: a group with all that is inside it, and white space. -/
theorem WellNested.elementFirsts_behind (hf : f.WellNested) (hpi : p < i) (hnext : f.next? (f.skipGroup i) = some j)
    (hjq : j ≤ q) :
    f.elementFirsts p false (List.range' (i + 1) (q - (i + 1)))
      = f.elementFirsts p false (List.range' j (q - j)) := by
  obtain ⟨hlt, _, _, htrivial⟩ := nextFrom?_eq_some.mp hnext
  have hle := f.le_skipGroup i
  refine elementFirsts_skip (by omega) hjq fun k hik hkj places => ?_
  by_cases hbehind : f.skipGroup i < k
  · exact elementFirsts_of_trivial false (htrivial k hbehind hkj)
  · cases hgroup : f.closer? i with
    | none =>
        rw [skipGroup_of_none hgroup] at hbehind
        omega
    | some m =>
        rw [skipGroup_of_closer hgroup] at hbehind
        by_cases heq : k = m
        · -- the closing bracket of the group
          have hclosing := (hf.sorts hgroup).2.1
          rw [← heq] at hclosing
          have hcuts : f.kind k ≠ .closeTag := fun hkind => by simp [hkind, Kind.closing?] at hclosing
          have hseparates : ¬ f.isChar k ',' := fun hkind => by
            simp [isChar_iff.mp hkind, Kind.closing?] at hclosing
          exact elementFirsts_of_passes (by simp [cutsList, hcuts]) (by simp [separatesList, hseparates])
        · have hinside : f.InsideAfter p k := ⟨i, m, (closer?_eq_some.mp hgroup).1, hpi, hik, by omega⟩
          exact elementFirsts_of_passes (by simp [cutsList, hinside]) (by simp [separatesList, hinside])

/-- Before the end of a list there is always a next token, no later than its closing parenthesis. -/
theorem WellNested.exists_next_of_lt (hf : f.WellNested) (hgroup : f.closer? p = some q) (hclose : f.isChar q ')')
    (ha : a < q) : ∃ j, f.next? a = some j ∧ a < j ∧ j ≤ q ∧ (f.token j).isTrivial = false := by
  have hsig := isTrivial_of_kind (isChar_iff.mp hclose) rfl
  obtain ⟨j, hj⟩ := next?_isSome_of_lt ha (hf.closer_lt hgroup) hsig
  exact ⟨j, hj, (f.next?_bounds hj).1, le_of_next? hj ha hsig, (nextFrom?_eq_some.mp hj).2.2.1⟩

/-- **The walk from an outside place finds the first tokens of the segments** from that place on. -/
theorem WellNested.elementsFrom_eq_firsts (hf : f.WellNested)
    (hopened : ∀ k, (f.kind k).closing?.isSome → ∃ o, f.closer? o = some k) (hgroup : f.closer? p = some q)
    (hclose : f.isChar q ')') (fresh : Bool) (i : Nat) (hpi : p < i) (hiq : i ≤ q)
    (hsig : (f.token i).isTrivial = false) (hi : f.OutsideAfter p i) :
    f.elementsFrom [','] [')'] fresh i = f.elementFirsts p fresh (List.range' i (q - i)) := by
  by_cases heq : i = q
  · rw [heq, elementsFrom_close fresh hclose, Nat.sub_self]
    exact (elementFirsts_nil fresh).symm
  · have hlt : i < q := by omega
    have hparen : ¬ f.isChar i ')' := by
      intro hparen
      have hclosing := hf.closing?_of_outside hopened hgroup hpi hlt hi
      rw [isChar_iff.mp hparen] at hclosing
      cases hclosing
    rw [elementsFrom_eq, isCharOf_singleton, isCharOf_singleton, range'_cons hlt]
    by_cases htag : f.kind i = .closeTag
    · rw [if_pos (by simp [htag]), elementFirsts_of_cuts fresh (by simp [cutsList, htag, hi.1])]
    · rw [if_neg (by simp [htag, hparen])]
      have hcuts : f.cutsList p i = false := by simp [cutsList, htag]
      by_cases hcomma : f.isChar i ','
      · obtain ⟨j, hj, hij, hjq, hjsig⟩ := hf.exists_next_of_lt hgroup hclose hlt
        have hself : f.skipGroup i = i :=
          skipGroup_of_none (hf.closer?_of_kind (by rw [isChar_iff.mp hcomma]; rfl))
        have hrest := hf.elementsFrom_eq_firsts hopened hgroup hclose true j (by omega) hjq hjsig
          (hf.outside_next hi (by rw [hself]; exact hj))
        rw [elementFirsts_of_separates fresh hcuts (by simp [separatesList, hcomma, hi.1]), elementFirsts_next hj hjq,
          hcomma, if_pos rfl, hj, Option.map_some, Option.getD_some, hrest, Bool.not_true, Bool.and_false]
        rfl
      · have hseparates : f.separatesList p i = false := by simp [separatesList, hcomma]
        obtain ⟨j, hj, hij, hjq, hjsig⟩ := hf.exists_next_of_lt hgroup hclose (hf.nested hgroup hpi hlt)
        have hle := f.le_skipGroup i
        have hrest := hf.elementsFrom_eq_firsts hopened hgroup hclose false j (by omega) hjq hjsig
          (hf.outside_next hi hj)
        rw [Bool.not_eq_true] at hcomma
        rw [hcomma, if_neg Bool.false_ne_true, hj, Option.map_some, Option.getD_some, hrest,
          ← hf.elementFirsts_behind hpi hj hjq]
        cases fresh with
        | false => exact (elementFirsts_of_passes hcuts hseparates).symm
        | true => exact (elementFirsts_of_significant hcuts hseparates hsig).symm
termination_by q - i

/-! ## What the walk depends on -/

/-- The streams have the same tokens and partners up to a place. -/
def AgreesUpTo (f g : TokenStream) (q : Nat) : Prop :=
  ∀ i ≤ q, g.token i = f.token i ∧ g.partner? i = f.partner? i

theorem AgreesUpTo.kind_eq (h : f.AgreesUpTo g q) (hi : i ≤ q) : g.kind i = f.kind i := by
  rw [kind, kind, (h i hi).1]

theorem AgreesUpTo.skipGroup_eq (h : f.AgreesUpTo g q) (hi : i ≤ q) : g.skipGroup i = f.skipGroup i := by
  rw [skipGroup, skipGroup, closer?, closer?, (h i hi).2]

/-- A closing parenthesis at the place is a token of both streams. -/
theorem AgreesUpTo.lt_size (h : f.AgreesUpTo g q) (hclose : f.isChar q ')') : q < g.size := by
  apply lt_size_of_kind
  rw [h.kind_eq (Nat.le_refl q), isChar_iff.mp hclose]
  exact Kind.noConfusion

/-- A token up to the place is next in both streams. -/
theorem AgreesUpTo.next?_eq (h : f.AgreesUpTo g q) (hq : q < g.size) (hnext : f.next? i = some j) (hjq : j ≤ q) :
    g.next? i = some j := by
  obtain ⟨hij, _, hsig, htrivial⟩ := nextFrom?_eq_some.mp hnext
  refine nextFrom?_eq_some.mpr ⟨hij, by omega, ?_, fun k hik hkj => ?_⟩
  · rw [(h j hjq).1]
    exact hsig
  · rw [(h k (by omega)).1]
    exact htrivial k hik hkj

/-- The walk is the same in a stream that differs behind the parentheses only. -/
theorem WellNested.elementsFrom_congr (hf : f.WellNested) (hgroup : f.closer? p = some q) (hclose : f.isChar q ')')
    {g : TokenStream} (hg : f.AgreesUpTo g q) (fresh : Bool) (i : Nat) (hpi : p < i) (hiq : i ≤ q) :
    g.elementsFrom [','] [')'] fresh i = f.elementsFrom [','] [')'] fresh i := by
  have hkind := hg.kind_eq hiq
  by_cases heq : i = q
  · have hclose' : g.isChar q ')' := isChar_iff.mpr ((hg.kind_eq (Nat.le_refl q)).trans (isChar_iff.mp hclose))
    rw [heq, elementsFrom_close fresh hclose, elementsFrom_close fresh hclose']
  · have hchar : ∀ cs, g.isCharOf i cs = f.isCharOf i cs := fun cs => by rw [isCharOf, isCharOf, (hg i hiq).1]
    have hskip : f.skipGroup i < q := hf.nested hgroup hpi (by omega)
    have hle := f.le_skipGroup i
    have hfrom : (if f.isCharOf i [','] then i else f.skipGroup i) < q := by split <;> omega
    obtain ⟨j, hj, hbounds, hjq, _⟩ := hf.exists_next_of_lt hgroup hclose hfrom
    have hij : i < j := by
      split at hbounds <;> omega
    have hrest := hf.elementsFrom_congr hgroup hclose hg (f.isCharOf i [',']) j (by omega) hjq
    rw [elementsFrom_eq, elementsFrom_eq, hkind, hchar, hchar, hg.skipGroup_eq hiq, hj,
      hg.next?_eq (hg.lt_size hclose) hj hjq, Option.map_some, Option.map_some, hrest]
termination_by q - i

/-! ## Lists in parentheses -/

theorem elements_eq {separators terminators : List Char} (hnext : f.next? a = some j) :
    f.elements separators terminators (a + 1) = f.elementsFrom separators terminators true j := by
  have hfrom : f.nextFrom? (a + 1) = some j := hnext
  rw [elements, hfrom]

/-- Every closing bracket closes a group. -/
theorem exists_closer_of_closing {tokens : List Token} (hnumbered : NumberedFrom 0 tokens)
    (h : ofTokens tokens = .ok f) {k : Nat} (hclosing : (f.kind k).closing?.isSome) : ∃ o, f.closer? o = some k := by
  obtain ⟨pairs, hpairs, rfl⟩ := ofTokens_eq_ok h
  cases hat : tokens[k]? with
  | none => simp [kind, token, hat, Kind.closing?] at hclosing
  | some t =>
      rw [kind, token_eq hat] at hclosing
      have hopen : t.kind.closer? = none := by
        obtain ⟨c, hc⟩ := Option.isSome_iff_exists.mp hclosing
        unfold Kind.closing? at hc
        split at hc <;> simp_all [Kind.closer?]
      obtain ⟨⟨o, c⟩, hp, hindex⟩ := exists_pair_of_closer hpairs (List.mem_of_getElem? hat) hopen hclosing
      obtain rfl : c = k := by
        have hti := hnumbered k t hat
        dsimp only at hindex
        omega
      exact ⟨o, (closer?_iff_mem hnumbered hpairs).mpr hp⟩

end TokenStream

namespace SourceFile

open TokenStream

variable {fileName source : String} {f : SourceFile}

/-- **A list is split at its own commas.** In every file that can be parsed, a parenthesis at `p` has its partner `q`
    further on. The elements of the list from the token after the parenthesis on, with commas between them and closed by
    a parenthesis, are the first significant tokens of the segments that have one, in order, when the places strictly
    between `p` and `q`, up to a closing tag outside nested groups, are split at the commas outside nested groups.
    Nothing behind `q` matters: a stream that is the same up to `q` has the same elements. -/
theorem elements_are_segmentFirsts (hf : ofSource fileName source = .ok f) {p : Nat} (hp : f.isChar p '(') :
    ∃ q, f.partner? p = some q ∧ p < q
      ∧ f.elements [','] [')'] (p + 1) = (f.listSegments p q).filterMap f.firstOf?
      ∧ ∀ g : TokenStream, f.AgreesUpTo g q → g.elements [','] [')'] (p + 1) = f.elements [','] [')'] (p + 1) := by
  obtain ⟨tokens, htokens, hfile⟩ := ofSource_eq_ok hf
  have hnested := wellNested_of_ofSource hf
  have hkind := isChar_iff.mp hp
  obtain ⟨q, hgroup⟩ := hnested.closes_of_isChar hp rfl
  have hclose : f.isChar q ')' := isChar_iff.mpr (hnested.kind_closer hgroup (by rw [hkind]; rfl))
  have hopened : ∀ k, (f.kind k).closing?.isSome → ∃ o, f.closer? o = some k := fun k hclosing =>
    exists_closer_of_closing (tokenize_numbered htokens) (ofTokens_eq_ok hfile).1 hclosing
  obtain ⟨hpartner, hpq⟩ := closer?_eq_some.mp hgroup
  obtain ⟨j, hj, hpj, hjq, hjsig⟩ := hnested.exists_next_of_lt hgroup hclose hpq
  refine ⟨q, hpartner, hpq, ?_, fun g hg => ?_⟩
  · rw [elements_eq hj, hnested.elementsFrom_eq_firsts hopened hgroup hclose true j hpj hjq
      hjsig (hnested.outside_first hj), ← elementFirsts_next hj hjq]
    rfl
  · rw [elements_eq hj, elements_eq (hg.next?_eq (hg.lt_size hclose) hj hjq)]
    exact hnested.elementsFrom_congr hgroup hclose hg true j hpj hjq

/-- A call with empty arguments, an attribute, an interpolated string, commas and a closing tag in nested groups, and a
    closing tag of its own before the end. -/
def cutCall : String :=
  "<?php f(, #[A(1, 2)] $a,, \"\x7b$b[0]\x7d,\", [1, g(?>,<?php )] ?> , $c <?php );"

theorem cutCall_run : ∃ f, ofSource "f.php" cutCall = .ok f
    ∧ f.isChar 2 '(' ∧ f.partner? 2 = some 45
    ∧ f.listSegments 2 45 = [[], List.range' 4 12, [], List.range' 18 10, List.range' 29 13]
    ∧ (f.listSegments 2 45).filterMap f.firstOf? = [5, 19, 30] :=
  exists_ok_of_decide (by decide +kernel)

/-- Three of the five segments have a significant token. -/
theorem cutCall_elements : ∃ f, ofSource "f.php" cutCall = .ok f ∧ f.isChar 2 '(' ∧ f.partner? 2 = some 45
    ∧ f.listSegments 2 45 = [[], List.range' 4 12, [], List.range' 18 10, List.range' 29 13]
    ∧ f.elements [','] [')'] 3 = [5, 19, 30] := by
  obtain ⟨f, hf, hparen, hpartner, hsegments, hfirsts⟩ := cutCall_run
  obtain ⟨q, hq, _, helements, _⟩ := elements_are_segmentFirsts hf hparen
  obtain rfl : q = 45 := Option.some.inj (hq.symm.trans hpartner)
  exact ⟨f, hf, hparen, hpartner, hsegments, helements.trans hfirsts⟩

end SourceFile

end Unassigned
