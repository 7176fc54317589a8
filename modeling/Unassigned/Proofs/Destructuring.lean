import Unassigned.Proofs.ArrowScope
import Unassigned.Proofs.Formatting.Layout
import Unassigned.Proofs.Resolution

/-!
# `Proofs.Destructuring` — a pattern binds its slots

A destructuring pattern is a list of slots in brackets, and a slot can be such a pattern itself. The scan goes
over it in one sweep: it decides from the neighbours of a bracket whether that opens an index, and from the
neighbours of a variable whether that is a slot. Here patterns are given by a grammar instead (`PatternAt`),
with two lists of places: the **targets**, and the places that belong to keys and indexes.

* `SlotsAt.bindPattern_eq` — by induction on the grammar, the sweep binds the targets, one after the other
* `SlotsAt.disjoint` — a target is no part of a key or an index
* `execute_bindSlots` — what the targets do to the scopes, the tokens dealt with and the defects
-/

namespace Unassigned

namespace TokenStream

/-! ## Patterns -/

/-- **A variable with its indexes**: behind the one at `i` stand groups `[...]`, and then the token `e`. The
    places of the groups are `inside`. -/
inductive IndexedAt (f : TokenStream) : Nat → Nat → Bool → List Nat → Prop where
  | bare {i e : Nat} : f.next? i = some e → f.kind e ≠ .char '[' → IndexedAt f i e false []
  | index {i o c e : Nat} {isIndexed : Bool} {inside : List Nat} :
      f.next? i = some o → f.kind o = .char '[' → f.closer? o = some c → f.kind c = .char ']' →
      IndexedAt f c e isIndexed inside → IndexedAt f i e true (placesBetween o c ++ inside)

/-- A number or a string literal. -/
def isLiteral : Kind → Bool
  | .integer | .float | .stringLiteral => true
  | _ => false

/-- A part of the name of a constant or class constant; in a qualified name a keyword can be one too. -/
def isConstantPart : Kind → Bool
  | .name | .nsSeparator | .doubleColon | .keyword _ => true
  | _ => false

/-- A constant or class constant at `k`, followed by the token `e`. -/
inductive ConstantAt (f : TokenStream) : Nat → Nat → Prop where
  | last {k e : Nat} : isConstantPart (f.kind k) → f.next? k = some e → ConstantAt f k e
  | part {k k' e : Nat} : isConstantPart (f.kind k) → f.next? k = some k' → ConstantAt f k' e → ConstantAt f k e

/-- **The key of a slot** at `k`, followed by the token `e`; the places of its variables and indexes are
    `inside`. -/
inductive KeyAt (f : TokenStream) : Nat → Nat → List Nat → Prop where
  | literal {k e : Nat} : isLiteral (f.kind k) → f.next? k = some e → KeyAt f k e []
  | negative {k n e : Nat} :
      f.kind k = .char '-' → f.next? k = some n → isLiteral (f.kind n) → f.next? n = some e → KeyAt f k e []
  | constant {k e : Nat} : ConstantAt f k e → KeyAt f k e []
  | ofVariable {k e : Nat} {isIndexed : Bool} {inside : List Nat} :
      f.kind k = .var → IndexedAt f k e isIndexed inside → KeyAt f k e (k :: inside)
  /-- A constant of the class that a variable names. -/
  | classConstant {k colons e : Nat} {isIndexed : Bool} {inside : List Nat} :
      f.kind k = .var → IndexedAt f k colons isIndexed inside → f.kind colons = .doubleColon →
      ConstantAt f colons e → KeyAt f k e (k :: inside)

/-- The target at `a` starts at `b`, with an ampersand before it or without. -/
def Referenced (f : TokenStream) (b a : Nat) : Prop :=
  b = a ∨ f.kind b = .char '&' ∧ f.next? b = some a

/-- What stands between the bracket or comma at `p` and the target at `a`: nothing or a key, and then an
    ampersand or none. -/
inductive LeadAt (f : TokenStream) : Nat → Nat → List Nat → Prop where
  | plain {p b a : Nat} : f.next? p = some b → f.Referenced b a → LeadAt f p a []
  | keyed {p k doubleArrow b a : Nat} {inside : List Nat} :
      f.next? p = some k → KeyAt f k doubleArrow inside → f.kind doubleArrow = .doubleArrow →
      f.next? doubleArrow = some b → f.Referenced b a → LeadAt f p a inside

/-- The bracket at `o` opens the pattern that starts at `a`, which is `[...]` or `list(...)`. -/
def OpensPattern (f : TokenStream) (a o : Nat) : Prop :=
  a = o ∧ f.kind o = .char '['
    ∨ f.kind a = .keyword .listWord ∧ f.next? a = some o ∧ f.kind o = .char '('

/-- A bracket that closes a pattern. -/
def ClosesPattern (f : TokenStream) (c : Nat) : Prop :=
  f.kind c = .char ']' ∨ f.kind c = .char ')'

/-- **The slots of a pattern** up to its closing bracket at `c`. With `fresh` a slot follows the bracket or
    comma at `p`, otherwise a slot ended before the token at `p`. The variables that are targets are listed with
    whether they have indexes, the places of keys and indexes are `others`. -/
inductive SlotsAt (f : TokenStream) : Bool → Nat → Nat → List (Nat × Bool) → List Nat → Prop where
  | done {c : Nat} : SlotsAt f false c c [] []
  | comma {q c : Nat} {targets : List (Nat × Bool)} {others : List Nat} :
      f.kind q = .char ',' → SlotsAt f true q c targets others → SlotsAt f false q c targets others
  /-- An empty slot. -/
  | empty {p q c : Nat} {targets : List (Nat × Bool)} {others : List Nat} :
      f.next? p = some q → SlotsAt f false q c targets others → SlotsAt f true p c targets others
  | target {p a q c : Nat} {isIndexed : Bool} {keys inside others : List Nat} {targets : List (Nat × Bool)} :
      LeadAt f p a keys → f.kind a = .var → IndexedAt f a q isIndexed inside → SlotsAt f false q c targets others →
      SlotsAt f true p c ((a, isIndexed) :: targets) (keys ++ inside ++ others)
  /-- A pattern in the pattern. -/
  | nested {p a o d q c : Nat} {keys innerOthers others : List Nat} {inner targets : List (Nat × Bool)} :
      LeadAt f p a keys → f.OpensPattern a o → f.closer? o = some d → f.ClosesPattern d →
      SlotsAt f true o d inner innerOthers → f.next? d = some q → SlotsAt f false q c targets others →
      SlotsAt f true p c (inner ++ targets) (keys ++ innerOthers ++ others)

/-- **A destructuring pattern** in the brackets at `o` and `c`, with the variables that are its targets and the
    places of its keys and indexes. -/
structure PatternAt (f : TokenStream) (o c : Nat) (targets : List (Nat × Bool)) (others : List Nat) : Prop where
  opens : f.kind o = .char '[' ∨ f.kind o = .char '('
  group : f.closer? o = some c
  closes : f.ClosesPattern c
  slots : SlotsAt f true o c targets others

variable {f : TokenStream}
variable {i : Nat} {kind : Kind}

/-! ## The order of places -/

/-- The places lie from `lo` to before `hi`. -/
def Within (lo hi : Nat) (places : List Nat) : Prop :=
  ∀ j ∈ places, lo ≤ j ∧ j < hi

namespace Within

variable {lo hi : Nat} {as bs : List Nat}

theorem nil (lo hi : Nat) : Within lo hi [] := by
  intro j hj
  cases hj

theorem cons {i : Nat} {places : List Nat} (hlo : lo ≤ i) (hhi : i < hi) (h : Within lo hi places) :
    Within lo hi (i :: places) := by
  intro j hj
  rcases List.mem_cons.mp hj with rfl | hj
  · exact ⟨hlo, hhi⟩
  · exact h j hj

theorem append (has : Within lo hi as) (hbs : Within lo hi bs) : Within lo hi (as ++ bs) := by
  intro j hj
  rcases List.mem_append.mp hj with hj | hj
  · exact has j hj
  · exact hbs j hj

theorem mono {lo' hi' : Nat} {places : List Nat} (h : Within lo hi places) (hlo : lo' ≤ lo) (hhi : hi ≤ hi') :
    Within lo' hi' places :=
  fun j hj => ⟨Nat.le_trans hlo (h j hj).1, Nat.lt_of_lt_of_le (h j hj).2 hhi⟩

/-- Places before a border are none of those after it. -/
theorem disjoint {border : Nat} (has : Within lo border as) (hbs : Within border hi bs) : as.Disjoint bs :=
  fun j hj hj' => Nat.lt_irrefl j (Nat.lt_of_lt_of_le (has j hj).2 (hbs j hj').1)

theorem disjoint_before {border : Nat} (has : Within lo border as) (hbs : Within border hi bs) : bs.Disjoint as :=
  fun _ hj hj' => has.disjoint hbs hj' hj

theorem placesBetween {o c hi : Nat} (h : c < hi) : Within o hi (placesBetween o c) := by
  intro j hj
  have hplace := List.mem_range'_1.mp hj
  omega

end Within

theorem IndexedAt.within {e : Nat} {isIndexed : Bool} {inside : List Nat} (h : f.IndexedAt i e isIndexed inside) :
    i < e ∧ Within (i + 1) e inside := by
  induction h with
  | bare hnext _ => exact ⟨(f.next?_bounds hnext).1, .nil _ _⟩
  | index hnext _ hgroup _ _ ih =>
      have hio := (f.next?_bounds hnext).1
      have hoc := (closer?_eq_some.mp hgroup).2
      have hgroupPlaces := (Within.placesBetween ih.1).mono hio (Nat.le_refl _)
      exact ⟨by omega, .append hgroupPlaces (ih.2.mono (by omega) (Nat.le_refl _))⟩

theorem ConstantAt.lt {k e : Nat} (h : f.ConstantAt k e) : k < e := by
  induction h with
  | last _ hnext => exact (f.next?_bounds hnext).1
  | part _ hnext _ ih => exact Nat.lt_trans (f.next?_bounds hnext).1 ih

theorem KeyAt.within {k e : Nat} {inside : List Nat} (h : f.KeyAt k e inside) : k < e ∧ Within k e inside := by
  cases h with
  | literal _ hnext => exact ⟨(f.next?_bounds hnext).1, .nil _ _⟩
  | negative _ hnext _ hnext' =>
      exact ⟨Nat.lt_trans (f.next?_bounds hnext).1 (f.next?_bounds hnext').1, .nil _ _⟩
  | constant h => exact ⟨h.lt, .nil _ _⟩
  | ofVariable _ h =>
      obtain ⟨hlt, hinside⟩ := h.within
      exact ⟨hlt, .cons (Nat.le_refl _) hlt (hinside.mono (Nat.le_succ _) (Nat.le_refl _))⟩
  | classConstant _ h _ hconstant =>
      obtain ⟨hlt, hinside⟩ := h.within
      have hke := Nat.lt_trans hlt hconstant.lt
      exact ⟨hke, .cons (Nat.le_refl _) hke (hinside.mono (Nat.le_succ _) (Nat.le_of_lt hconstant.lt))⟩

theorem Referenced.le {b a : Nat} (h : f.Referenced b a) : b ≤ a := by
  rcases h with rfl | ⟨_, hnext⟩
  · exact Nat.le_refl b
  · exact Nat.le_of_lt (f.next?_bounds hnext).1

theorem LeadAt.within {p a : Nat} {keys : List Nat} (h : f.LeadAt p a keys) : p < a ∧ Within (p + 1) a keys := by
  cases h with
  | plain hnext href => exact ⟨Nat.lt_of_lt_of_le (f.next?_bounds hnext).1 href.le, .nil _ _⟩
  | keyed hnext hkey _ harrow href =>
      have hp := (f.next?_bounds hnext).1
      have hb := (f.next?_bounds harrow).1
      have ha := href.le
      exact ⟨by have := hkey.within.1; omega, hkey.within.2.mono hp (by omega)⟩

theorem OpensPattern.le {a o : Nat} (h : f.OpensPattern a o) : a ≤ o := by
  rcases h with ⟨rfl, _⟩ | ⟨_, hnext, _⟩
  · exact Nat.le_refl a
  · exact Nat.le_of_lt (f.next?_bounds hnext).1

/-- The targets and the other places of slots stand before the closing bracket. -/
theorem SlotsAt.within {fresh : Bool} {p c : Nat} {targets : List (Nat × Bool)} {others : List Nat}
    (h : f.SlotsAt fresh p c targets others) :
    p ≤ c ∧ (fresh → p < c) ∧ Within p c (targets.map Prod.fst) ∧ Within p c others := by
  induction h with
  | done => exact ⟨Nat.le_refl _, by simp, .nil _ _, .nil _ _⟩
  | comma _ _ ih => exact ⟨ih.1, by simp, ih.2.2⟩
  | empty hnext _ ih =>
      obtain ⟨hle, _, htargets, hothers⟩ := ih
      have hp := (f.next?_bounds hnext).1
      exact ⟨by omega, fun _ => by omega, htargets.mono (by omega) (Nat.le_refl _),
        hothers.mono (by omega) (Nat.le_refl _)⟩
  | target hlead _ hindexed _ ih =>
      obtain ⟨hle, _, htargets, hothers⟩ := ih
      obtain ⟨hpa, hkeys⟩ := hlead.within
      obtain ⟨haq, hinside⟩ := hindexed.within
      refine ⟨by omega, fun _ => by omega, .cons (by omega) (by omega) (htargets.mono (by omega) (Nat.le_refl _)), ?_⟩
      exact ((hkeys.mono (by omega) (by omega)).append (hinside.mono (by omega) hle)).append
        (hothers.mono (by omega) (Nat.le_refl _))
  | nested hlead hopens _ _ _ hnext _ ihinner ih =>
      obtain ⟨hle, _, htargets, hothers⟩ := ih
      obtain ⟨hod, _, htargets', hothers'⟩ := ihinner
      obtain ⟨hpa, hkeys⟩ := hlead.within
      have hao := hopens.le
      have hdq := (f.next?_bounds hnext).1
      refine ⟨by omega, fun _ => by omega, ?_, ?_⟩
      · rw [List.map_append]
        exact (htargets'.mono (by omega) (by omega)).append (htargets.mono (by omega) (Nat.le_refl _))
      · exact ((hkeys.mono (by omega) (by omega)).append (hothers'.mono (by omega) (by omega))).append
          (hothers.mono (by omega) (Nat.le_refl _))

/-- **A target is no part of a key or an index.** -/
theorem SlotsAt.disjoint {fresh : Bool} {p c : Nat} {targets : List (Nat × Bool)} {others : List Nat}
    (h : f.SlotsAt fresh p c targets others) : (targets.map Prod.fst).Disjoint others := by
  induction h with
  | done => exact List.disjoint_nil_left _
  | comma _ _ ih => exact ih
  | empty _ _ ih => exact ih
  | @target p a q c _ keys inside others targets hlead _ hindexed hslots ih =>
      obtain ⟨hpa, hkeys⟩ := hlead.within
      obtain ⟨haq, hinside⟩ := hindexed.within
      obtain ⟨_, _, htargets, hothers⟩ := hslots.within
      have hfirst : Within a (a + 1) [a] := .cons (Nat.le_refl a) (Nat.lt_succ_self a) (.nil _ _)
      rw [List.map_cons, ← List.singleton_append, List.disjoint_append_left, List.disjoint_append_right,
        List.disjoint_append_right, List.disjoint_append_right, List.disjoint_append_right]
      refine ⟨⟨⟨hkeys.disjoint_before hfirst, hfirst.disjoint hinside⟩, ?_⟩, ⟨⟨?_, ?_⟩, ih⟩⟩
      · exact (hfirst.mono (Nat.le_refl a) haq).disjoint hothers
      · exact (hkeys.mono (Nat.le_refl _) (Nat.le_of_lt haq)).disjoint_before htargets
      · exact hinside.disjoint_before htargets
  | nested hlead hopens _ _ hinner hnext hslots ihinner ih =>
      obtain ⟨hpa, hkeys⟩ := hlead.within
      obtain ⟨hod, _, htargets', hothers'⟩ := hinner.within
      obtain ⟨_, _, htargets, hothers⟩ := hslots.within
      have hao := hopens.le
      have hdq := (f.next?_bounds hnext).1
      rw [List.map_append, List.disjoint_append_left, List.disjoint_append_right, List.disjoint_append_right,
        List.disjoint_append_right, List.disjoint_append_right]
      refine ⟨⟨⟨?_, ihinner⟩, ?_⟩, ⟨⟨?_, ?_⟩, ih⟩⟩
      · exact (hkeys.mono (Nat.le_refl _) hao).disjoint_before htargets'
      · exact (htargets'.mono (Nat.le_refl _) (Nat.le_of_lt hdq)).disjoint hothers
      · exact (hkeys.mono (Nat.le_refl _) (by omega)).disjoint_before htargets
      · exact (hothers'.mono (Nat.le_refl _) (Nat.le_of_lt hdq)).disjoint_before htargets

/-! ## The sweep over keys and indexes -/

theorem slot?_of_not_var (h : f.kind i ≠ .var) : f.slot? i = none := by
  simp [slot?, h]

/-- The token behind the indexes of a variable decides whether the variable is a slot. -/
theorem IndexedAt.afterIndexes_eq {i e : Nat} {isIndexed : Bool} {inside : List Nat}
    (h : f.IndexedAt i e isIndexed inside) : f.afterIndexes i = (some e, isIndexed) := by
  induction h with
  | bare hnext hkind =>
      rw [TokenStream.afterIndexes_eq, hnext]
      simp [isChar_iff, hkind]
  | index hnext hkind hgroup _ _ ih =>
      rw [TokenStream.afterIndexes_eq, hnext]
      simp [isChar_iff.mpr hkind, skipGroup_of_closer hgroup, ih]

theorem isCharOf_eq_false {cs : List Char} (h : ∀ c ∈ cs, f.kind i ≠ .char c) : f.isCharOf i cs = false := by
  rw [Bool.eq_false_iff]
  intro hchar
  obtain ⟨c, hc, hkind⟩ := isCharOf_iff.mp hchar
  exact h c hc hkind

/-- A token that the sweep passes: neither a variable nor an opening bracket. -/
def isPassed (kind : Kind) : Bool :=
  kind != .var && kind != .char '[' && kind != .char '('

theorem isPassed_of_isTrivial (h : kind.isTrivial) : isPassed kind := by
  cases kind <;> first | rfl | cases h

theorem isPassed_of_isLiteral (h : isLiteral kind) : isPassed kind := by
  cases kind <;> first | rfl | cases h

theorem isPassed_of_isConstantPart (h : isConstantPart kind) : isPassed kind := by
  cases kind <;> first | rfl | cases h

section

variable {close : Nat}
variable {i e b a : Nat}

theorem bindPattern_pass (hi : i < close) (h : isPassed (f.kind i)) :
    f.bindPattern close i = f.bindPattern close (i + 1) := by
  simp only [isPassed, Bool.and_eq_true, bne_iff_ne] at h
  obtain ⟨⟨hvar, hsquare⟩, hround⟩ := h
  have hbracket : f.isCharOf i ['[', '('] = false := isCharOf_eq_false (by simp [hsquare, hround])
  rw [bindPattern, if_pos hi, hbracket, slot?_of_not_var hvar]
  rfl

/-- White space and comments are passed. -/
theorem bindPattern_next {n : Nat} (h : f.next? i = some n) (hn : n ≤ close) :
    f.bindPattern close (i + 1) = f.bindPattern close n := by
  obtain ⟨hle, _, _, htrivial⟩ := nextFrom?_eq_some.mp h
  obtain ⟨k, hk⟩ := Nat.exists_eq_add_of_le hle
  clear h hle
  induction k generalizing i with
  | zero => rw [hk, Nat.add_zero]
  | succ k ih =>
      have htoken : (f.kind (i + 1)).isTrivial := htrivial (i + 1) (Nat.le_refl _) (by omega)
      rw [bindPattern_pass (by omega) (isPassed_of_isTrivial htoken)]
      exact ih (fun j hj hjn => htrivial j (by omega) hjn) (by omega)

theorem bindPattern_over {n : Nat} (h : f.next? i = some n) (hn : n ≤ close) (hi : isPassed (f.kind i)) :
    f.bindPattern close i = f.bindPattern close n := by
  have hin := (f.next?_bounds h).1
  rw [bindPattern_pass (by omega) hi, bindPattern_next h hn]

/-- Behind a variable or a closing bracket the sweep jumps over the indexes. -/
theorem IndexedAt.bindPattern_eq {isIndexed : Bool} {inside : List Nat} (h : f.IndexedAt i e isIndexed inside)
    (hoperand : f.kind i = .var ∨ f.kind i = .char ']') (he : e ≤ close) :
    f.bindPattern close (i + 1) = f.bindPattern close e := by
  induction h with
  | bare hnext _ => exact bindPattern_next hnext he
  | @index i o c e _ _ hnext hkind hgroup hclose hrest ih =>
      have hoc := (closer?_eq_some.mp hgroup).2
      have hce := hrest.within.1
      have hsignificant : (f.kind i).isTrivial = false := by
        rcases hoperand with h | h <;> rw [h] <;> rfl
      have hfollows : f.followsOperand o := by
        rw [followsOperand, prevAny, prev?_of_next? hnext hsignificant]
        rcases hoperand with h | h <;> simp [h]
      have hbracket : f.isCharOf o ['[', '('] := isCharOf_iff.mpr ⟨'[', by simp, hkind⟩
      rw [bindPattern_next hnext (by omega), bindPattern, if_pos (by omega), hbracket, hfollows, Bool.and_self,
        if_pos rfl, skipGroup_of_closer hgroup]
      exact ih (.inr hclose) he

theorem ConstantAt.bindPattern_eq {k : Nat} (h : f.ConstantAt k e) (he : e ≤ close) :
    f.bindPattern close k = f.bindPattern close e := by
  induction h with
  | last hk hnext => exact bindPattern_over hnext he (isPassed_of_isConstantPart hk)
  | part hk hnext hrest ih =>
      have hlt := hrest.lt
      rw [bindPattern_over hnext (by omega) (isPassed_of_isConstantPart hk), ih he]

/-- A variable that is followed by something else than a comma or a closing bracket is no slot. -/
theorem IndexedAt.bindPattern_of_not_slot {k : Nat} {isIndexed : Bool} {inside : List Nat}
    (h : f.IndexedAt k e isIndexed inside) (hvar : f.kind k = .var) (hend : f.isCharOf e [',', ')', ']'] = false)
    (he : e ≤ close) : f.bindPattern close k = f.bindPattern close e := by
  have hlt := h.within.1
  have hslot : f.slot? k = none := by simp [slot?, h.afterIndexes_eq, hend]
  have hbracket : f.isCharOf k ['[', '('] = false := isCharOf_eq_false (by simp [hvar])
  rw [bindPattern, if_pos (by omega), hbracket, hslot]
  exact h.bindPattern_eq (.inl hvar) he

/-- **A key is passed.** -/
theorem KeyAt.bindPattern_eq {k e : Nat} {inside : List Nat} (h : f.KeyAt k e inside)
    (hend : f.kind e = .doubleArrow) (he : e ≤ close) : f.bindPattern close k = f.bindPattern close e := by
  cases h with
  | literal hk hnext => exact bindPattern_over hnext he (isPassed_of_isLiteral hk)
  | negative hk hnext hn hnext' =>
      have hlt := (f.next?_bounds hnext').1
      rw [bindPattern_over hnext (by omega) (by rw [hk]; rfl), bindPattern_over hnext' he (isPassed_of_isLiteral hn)]
  | constant h => exact h.bindPattern_eq he
  | ofVariable hvar h => exact h.bindPattern_of_not_slot hvar (isCharOf_eq_false (by simp [hend])) he
  | classConstant hvar h hcolons hconstant =>
      have hlt := hconstant.lt
      rw [h.bindPattern_of_not_slot hvar (isCharOf_eq_false (by simp [hcolons])) (by omega),
        hconstant.bindPattern_eq he]

/-! ## The sweep over slots -/

/-- A token behind which a target can stand. -/
def LeadsSlot (f : TokenStream) (p : Nat) : Prop :=
  f.kind p = .char '(' ∨ f.kind p = .char '[' ∨ f.kind p = .char ',' ∨ f.kind p = .doubleArrow

theorem LeadsSlot.isTrivial {p : Nat} (h : f.LeadsSlot p) : (f.token p).isTrivial = false := by
  show (f.kind p).isTrivial = false
  rcases h with h | h | h | h <;> rw [h] <;> rfl

theorem Referenced.beforeTarget?_eq {p : Nat} (h : f.Referenced b a) (hnext : f.next? p = some b)
    (hsig : (f.token p).isTrivial = false) (hother : f.kind p ≠ .char '&') : f.beforeTarget? a = some p := by
  have hprev := prev?_of_next? hnext hsig
  unfold beforeTarget?
  rcases h with rfl | ⟨hampersand, hnext'⟩
  · simp [hprev, isChar_iff, hother]
  · have hprev' : f.prev? a = some b := prev?_of_next? hnext' (isTrivial_of_kind hampersand rfl)
    simp [hprev', isChar_iff.mpr hampersand, hprev]

/-- A target stands where a slot starts, and a bracket there follows no operand. -/
theorem Referenced.starts {p : Nat} (h : f.Referenced b a) (hnext : f.next? p = some b) (hp : f.LeadsSlot p) :
    f.startsSlot a ∧ f.followsOperand a = false := by
  have hother : f.kind p ≠ .char '&' := by
    rcases hp with h | h | h | h <;> simp [h]
  constructor
  · rw [startsSlot, h.beforeTarget?_eq hnext hp.isTrivial hother, Option.any_some, Bool.or_eq_true, isCharOf_iff,
      beq_iff_eq]
    rcases hp with h | h | h | h
    · exact .inl ⟨'(', by simp, h⟩
    · exact .inl ⟨'[', by simp, h⟩
    · exact .inl ⟨',', by simp, h⟩
    · exact .inr h
  · rcases h with rfl | ⟨hampersand, hnext'⟩
    · rw [followsOperand, prevAny, prev?_of_next? hnext hp.isTrivial]
      rcases hp with h | h | h | h <;> simp [h]
    · have hprev : f.prev? a = some b := prev?_of_next? hnext' (isTrivial_of_kind hampersand rfl)
      simp [followsOperand, prevAny, hprev, hampersand]

theorem Referenced.bindPattern_eq (h : f.Referenced b a) (ha : a ≤ close) :
    f.bindPattern close b = f.bindPattern close a := by
  rcases h with rfl | ⟨hampersand, hnext⟩
  · rfl
  · exact bindPattern_over hnext ha (by rw [hampersand]; rfl)

/-- The sweep comes to the target of a slot and finds that a slot starts there. -/
theorem LeadAt.bindPattern_eq {p a : Nat} {keys : List Nat} (h : f.LeadAt p a keys) (hp : f.LeadsSlot p)
    (ha : a ≤ close) : f.bindPattern close (p + 1) = f.bindPattern close a
      ∧ f.startsSlot a ∧ f.followsOperand a = false := by
  cases h with
  | plain hnext href =>
      have hle := href.le
      refine ⟨?_, href.starts hnext hp⟩
      rw [bindPattern_next hnext (by omega), href.bindPattern_eq ha]
  | keyed hnext hkey hkind harrow href =>
      have hle := href.le
      have hkeys := hkey.within.1
      have hbound := (f.next?_bounds harrow).1
      refine ⟨?_, href.starts harrow (.inr (.inr (.inr hkind)))⟩
      rw [bindPattern_next hnext (by omega), hkey.bindPattern_eq hkind (by omega),
        bindPattern_over harrow (by omega) (by rw [hkind]; rfl), href.bindPattern_eq ha]

/-- Binds variables, one after the other. -/
def bindSlots (f : TokenStream) (targets : List (Nat × Bool)) : List Command :=
  targets.flatMap fun t => f.bindSlot t.1 t.2

/-- The token behind a target is a comma or the closing bracket. -/
theorem SlotsAt.ends {q c : Nat} {targets : List (Nat × Bool)} {others : List Nat}
    (h : f.SlotsAt false q c targets others) (hc : f.ClosesPattern c) : f.isCharOf q [',', ')', ']'] := by
  cases h with
  | done =>
      rcases hc with hc | hc
      · exact isCharOf_iff.mpr ⟨']', by simp, hc⟩
      · exact isCharOf_iff.mpr ⟨')', by simp, hc⟩
  | comma hcomma _ => exact isCharOf_iff.mpr ⟨',', by simp, hcomma⟩

/-- **The sweep binds the targets**, in their order, and goes on at the closing bracket. -/
theorem SlotsAt.bindPattern_eq {fresh : Bool} {p c : Nat} {targets : List (Nat × Bool)} {others : List Nat}
    (h : f.SlotsAt fresh p c targets others) (hp : fresh → f.LeadsSlot p) (hc : f.ClosesPattern c) (hle : c ≤ close) :
    f.bindPattern close (if fresh then p + 1 else p) = f.bindSlots targets ++ f.bindPattern close c := by
  -- the induction is on the grammar; a nested pattern is one more run of slots, with its own closing bracket
  induction h with
  | done => rfl
  | @comma q c targets others hcomma hslots ih =>
      have hlt := hslots.within.2.1 rfl
      rw [if_neg (by simp), bindPattern_pass (by omega) (by rw [hcomma]; rfl)]
      exact ih (fun _ => .inr (.inr (.inl hcomma))) hc hle
  | empty hnext hslots ih =>
      have hle' := hslots.within.1
      rw [if_pos rfl, bindPattern_next hnext (by omega)]
      exact ih (by simp) hc hle
  | @target p a q c isIndexed keys inside others targets hlead hvar hindexed hslots ih =>
      have hqc := hslots.within.1
      have haq := hindexed.within.1
      obtain ⟨hcome, hstarts, _⟩ := hlead.bindPattern_eq (hp rfl) (show a ≤ close by omega)
      have hslot : f.slot? a = some isIndexed := by
        simp [slot?, hindexed.afterIndexes_eq, hvar, hstarts, hslots.ends hc]
      have hbracket : f.isCharOf a ['[', '('] = false := isCharOf_eq_false (by simp [hvar])
      rw [if_pos rfl, hcome, bindPattern, if_pos (by omega), hbracket, hslot]
      show f.bindSlot a isIndexed ++ f.bindPattern close (a + 1) = _
      rw [hindexed.bindPattern_eq (.inl hvar) (by omega)]
      have hrest := ih (by simp) hc hle
      rw [if_neg (by simp)] at hrest
      rw [hrest, bindSlots, bindSlots, List.flatMap_cons, List.append_assoc]
  | @nested p a o d q c keys innerOthers others inner targets hlead hopens hgroup hcloses hinner hnext hslots
      ihinner ih =>
      have hqc := hslots.within.1
      have hdq := (f.next?_bounds hnext).1
      have hod := hinner.within.2.1 rfl
      have hao := hopens.le
      obtain ⟨hcome, _, hfollows⟩ := hlead.bindPattern_eq (hp rfl) (show a ≤ close by omega)
      -- the opening bracket is reached and follows no operand, so the sweep goes into it
      have hopen : f.bindPattern close a = f.bindPattern close (o + 1) ∧ f.LeadsSlot o := by
        have henter : ∀ bracket, f.kind o = .char bracket → f.followsOperand o = false →
            f.bindPattern close o = f.bindPattern close (o + 1) := by
          intro bracket hkind hfollows
          rw [bindPattern, if_pos (by omega), hfollows, Bool.and_false, slot?_of_not_var (by simp [hkind])]
          rfl
        rcases hopens with ⟨rfl, hkind⟩ | ⟨hlist, hparen, hkind⟩
        · exact ⟨henter '[' hkind hfollows, .inr (.inl hkind)⟩
        · have hprev : f.prev? o = some a :=
            prev?_of_next? hparen (isTrivial_of_kind hlist rfl)
          refine ⟨?_, .inl hkind⟩
          rw [bindPattern_over hparen (by omega) (by rw [hlist]; rfl)]
          exact henter '(' hkind (by simp [followsOperand, prevAny, hprev, hlist])
      have hinside := ihinner (fun _ => hopen.2) hcloses (by omega)
      have hrest := ih (by simp) hc hle
      rw [if_pos rfl] at hinside
      rw [if_neg (by simp)] at hrest
      have hpassed : isPassed (f.kind d) := by
        rcases hcloses with h | h <;> rw [h] <;> rfl
      rw [if_pos rfl, hcome, hopen.1, hinside, bindPattern_over hnext (by omega) hpassed, hrest, bindSlots, bindSlots,
        bindSlots, List.flatMap_append, List.append_assoc]

end

/-- **The brackets of a pattern bind its targets**, and nothing else is done. -/
theorem PatternAt.bindGroup_eq {o c : Nat} {targets : List (Nat × Bool)} {others : List Nat}
    (h : f.PatternAt o c targets others) : f.bindGroup o = f.bindSlots targets := by
  have hleads : f.LeadsSlot o := h.opens.elim (fun hkind => .inr (.inl hkind)) .inl
  have hsweep := h.slots.bindPattern_eq (fun _ => hleads) h.closes (Nat.le_refl c)
  have hend : f.bindPattern c c = [] := by
    rw [bindPattern, if_neg (Nat.lt_irrefl c)]
  rwa [if_pos rfl, hend, List.append_nil, ← skipGroup_of_closer h.group] at hsweep

end TokenStream

/-! ## What the targets do -/

/-- The variables with indexes whose name is not known when they are reached. -/
def TokenStream.newArrays (f : TokenStream) (known : String → Bool) : List (Nat × Bool) → List Nat
  | [] => []
  | (i, isIndexed) :: rest =>
    (if isIndexed && !known (f.text i) then [i] else [])
      ++ newArrays f (fun name => known name || name == f.text i) rest

namespace ScanContext

variable (ctx : ScanContext)

/-- The defects that are found where arrays are created, if they are kept at the report level. -/
def arrayDefects (places : List Nat) : List Defect :=
  if Severity.warning.atLeast ctx.level then
    places.map fun i => ⟨ctx.file.token i, .warning, .arrayAutovivification⟩
  else []

theorem isKnown_assign {st : ScanState} (hdepth : 0 < st.scopes.depth) (token : Token) (name : String) :
    ctx.isKnown (st.assign 0 token) 0 name = (ctx.isKnown st 0 name || name == token.text) := by
  have hsame : (st.assign 0 token).scopes.depth = st.scopes.depth := st.depth_assign 0 token
  have hdeclares : (st.assign 0 token).scopes.declares 0 name = (st.scopes.declares 0 name || name == token.text) := by
    rw [Bool.eq_iff_iff, Bool.or_eq_true, beq_iff_eq]
    exact ScopeStack.declares_assigned hdepth token
  rw [isKnown, isKnown, isPredefined, isPredefined, hsame, hdeclares, ← Bool.or_assoc]

/-- One target: its variable is assigned, its token is dealt with, and a new array is reported. -/
theorem execute_bindSlot (i : Nat) (isIndexed : Bool) (st : ScanState) :
    let after := ctx.execute (ctx.file.bindSlot i isIndexed) st
    after.scopes = st.scopes.assigned (ctx.file.token i) ∧ after.consumed = i :: st.consumed
      ∧ after.defects = ctx.arrayDefects (if isIndexed && !ctx.isKnown st 0 (ctx.file.text i) then [i] else [])
          ++ st.defects := by
  have hnone : ctx.arrayDefects [] = [] := by
    rw [arrayDefects, List.map_nil, ite_self]
  cases isIndexed with
  | false =>
      rw [Bool.false_and, if_neg Bool.false_ne_true, hnone]
      exact ⟨rfl, rfl, rfl⟩
  | true =>
      -- the variable is assigned after the report, if there is one
      intro after
      have hafter : after = ((if ctx.isKnown st 0 (ctx.file.text i) then st else
          ctx.report (ctx.file.token i) .warning .arrayAutovivification st).assign 0
            (ctx.file.token i)).consume i := rfl
      rw [hafter, Bool.true_and]
      cases ctx.isKnown st 0 (ctx.file.text i) with
      | true => exact ⟨rfl, rfl, by rw [Bool.not_true, if_neg Bool.false_ne_true, hnone]; rfl⟩
      | false =>
          rw [if_neg Bool.false_ne_true, Bool.not_false, if_pos rfl, arrayDefects, report]
          split
          · exact ⟨rfl, rfl, rfl⟩
          · exact ⟨rfl, rfl, rfl⟩

theorem arrayDefects_append (as bs : List Nat) :
    ctx.arrayDefects (as ++ bs) = ctx.arrayDefects as ++ ctx.arrayDefects bs := by
  unfold arrayDefects
  split
  · exact List.map_append
  · rfl

/-- **What the targets do**, one after the other. -/
theorem execute_bindSlots (targets : List (Nat × Bool)) {st : ScanState} (hdepth : 0 < st.scopes.depth) :
    let after := ctx.execute (ctx.file.bindSlots targets) st
    after.scopes = st.scopes.assignAll (targets.map fun t => ctx.file.token t.1)
      ∧ after.consumed = (targets.map Prod.fst).reverse ++ st.consumed
      ∧ after.defects = ctx.arrayDefects (ctx.file.newArrays (ctx.isKnown st 0) targets).reverse ++ st.defects := by
  induction targets generalizing st with
  | nil => exact ⟨rfl, rfl, by simp [TokenStream.newArrays, arrayDefects]; rfl⟩
  | cons t targets ih =>
      obtain ⟨i, isIndexed⟩ := t
      obtain ⟨hscopes, hconsumed, hdefects⟩ := ctx.execute_bindSlot i isIndexed st
      generalize hmid : ctx.execute (ctx.file.bindSlot i isIndexed) st = mid at hscopes hconsumed hdefects
      -- after the first target its name is known too
      have hknown : ctx.isKnown mid 0 = fun name => ctx.isKnown st 0 name || name == ctx.file.text i := by
        funext name
        rw [isKnown, isPredefined, hscopes]
        exact ctx.isKnown_assign hdepth (ctx.file.token i) name
      have hdepth' : 0 < mid.scopes.depth := by rwa [hscopes, ScopeStack.depth_assigned]
      obtain ⟨hscopes', hconsumed', hdefects'⟩ := ih hdepth'
      rw [TokenStream.bindSlots, List.flatMap_cons, ctx.execute_append, hmid, ← TokenStream.bindSlots]
      refine ⟨?_, ?_, ?_⟩
      · rw [hscopes', hscopes]
        rfl
      · rw [hconsumed', hconsumed]
        simp
      · rw [hdefects', hdefects, hknown, TokenStream.newArrays, List.reverse_append, arrayDefects_append,
          List.append_assoc]
        congr 2
        split <;> rfl

/-- **Destructuring binds exactly its slots.** For the brackets of any pattern, at any moment of the scan of any
    file: the variables of the targets, at all depths, are assigned in the current scope, and those of other names
    stay as they are in every scope. The tokens dealt with are those of the targets; no place of a key or an index
    is among them. And an array that is created is reported for exactly the targets with indexes whose name is not
    known when they are reached. -/
theorem pattern_binds_targets (m : Nat) {o c : Nat} {targets : List (Nat × Bool)} {others : List Nat}
    (h : ctx.file.PatternAt o c targets others) :
    let before := ctx.stateAt m
    let after := ctx.execute (ctx.file.bindGroup o) before
    let names := targets.map fun t => ctx.file.text t.1
    (∀ name ∈ names, (after.scopes.find? 0 name).map Variable.status = some .assigned)
      ∧ (∀ name, name ∉ names → ∀ level, after.scopes.find? level name = before.scopes.find? level name)
      ∧ (∀ name, after.scopes.declares 0 name ↔ before.scopes.declares 0 name ∨ name ∈ names)
      ∧ after.consumed = (targets.map Prod.fst).reverse ++ before.consumed
      ∧ (∀ j ∈ others, j ∉ targets.map Prod.fst)
      ∧ after.defects = ctx.arrayDefects (ctx.file.newArrays (ctx.isKnown before 0) targets).reverse
          ++ before.defects := by
  intro before after names
  have hdepth : 0 < before.scopes.depth := ctx.depth_stateAt m
  have hresolved : Resolved before.scopes.frames := ctx.stateAt_resolved m
  have hafter : after = ctx.execute (ctx.file.bindSlots targets) before := by rw [← h.bindGroup_eq]
  obtain ⟨hscopes, hconsumed, hdefects⟩ := ctx.execute_bindSlots targets hdepth
  have hnames : names = (targets.map fun t => ctx.file.token t.1).map Token.text := by
    rw [List.map_map]
    rfl
  rw [hafter, hscopes, hnames]
  refine ⟨?_, ?_, ?_, hconsumed, ?_, hdefects⟩
  · exact fun name hname => ScopeStack.status_assignAll hdepth hresolved hname
  · exact fun name hname level => ScopeStack.find?_assignAll_of_not_mem hname level
  · exact fun name => ScopeStack.declares_assignAll hdepth
  · exact fun j hj hmem => h.slots.disjoint hmem hj

end ScanContext

namespace Linter

/-- A pattern in a pattern, with keys, indexes and an empty slot. -/
def nestedPattern : String :=
  "<?php [$k[$i] => [, $a[$j]], 'x' => &$b] = $r;"

theorem nestedPattern_run : ∃ file, SourceFile.ofSource "f.php" nestedPattern = .ok file
    ∧ (file.kind 1 = .char '[' ∧ file.closer? 1 = some 25 ∧ file.kind 25 = .char ']')
    -- the key and the pattern behind it
    ∧ (file.next? 1 = some 2 ∧ file.kind 2 = .var ∧ file.next? 2 = some 3 ∧ file.kind 3 = .char '['
      ∧ file.closer? 3 = some 5 ∧ file.kind 5 = .char ']' ∧ file.next? 5 = some 7 ∧ file.kind 7 = .doubleArrow)
    ∧ (file.next? 7 = some 9 ∧ file.kind 9 = .char '[' ∧ file.closer? 9 = some 16 ∧ file.kind 16 = .char ']')
    -- its slots, one of them empty
    ∧ (file.next? 9 = some 10 ∧ file.kind 10 = .char ',' ∧ file.next? 10 = some 12 ∧ file.kind 12 = .var
      ∧ file.next? 12 = some 13 ∧ file.kind 13 = .char '[' ∧ file.closer? 13 = some 15 ∧ file.kind 15 = .char ']'
      ∧ file.next? 15 = some 16)
    -- the second slot
    ∧ (file.next? 16 = some 17 ∧ file.kind 17 = .char ',' ∧ file.next? 17 = some 19
      ∧ file.kind 19 = .stringLiteral ∧ file.next? 19 = some 21 ∧ file.kind 21 = .doubleArrow
      ∧ file.next? 21 = some 23 ∧ file.kind 23 = .char '&' ∧ file.next? 23 = some 24 ∧ file.kind 24 = .var
      ∧ file.next? 24 = some 25)
    ∧ file.text 12 = "$a" ∧ file.text 24 = "$b" :=
  exists_ok_of_decide (by decide +kernel)

/-- Two variables are bound, one of them in the inner pattern. -/
theorem nestedPattern_binds : ∃ file, SourceFile.ofSource "f.php" nestedPattern = .ok file
    ∧ let ctx := warnings.context file
      file.PatternAt 1 25 [(12, true), (24, false)] [2, 3, 4, 5, 13, 14, 15]
      ∧ (∀ name ∈ ["$a", "$b"],
          ((ctx.execute (file.bindGroup 1) (ctx.stateAt 6)).scopes.find? 0 name).map Variable.status = some .assigned)
      ∧ (ctx.execute (file.bindGroup 1) (ctx.stateAt 6)).consumed = [24, 12] ++ (ctx.stateAt 6).consumed := by
  obtain ⟨file, hfile, ⟨hopen, hclose, hsquare⟩, ⟨hn1, hk2, hn2, hk3, hg3, hk5, hn5, hk7⟩, ⟨hn7, hk9, hg9, hk16⟩,
    ⟨hn9, hk10, hn10, hk12, hn12, hk13, hg13, hk15, hn15⟩,
    ⟨hn16, hk17, hn17, hk19, hn19, hk21, hn21, hk23, hn23, hk24, hn24⟩, ha, hb⟩ := nestedPattern_run
  have hinner : file.SlotsAt true 9 16 [(12, true)] [13, 14, 15] :=
    .empty hn9 (.comma hk10 (.target (.plain hn10 (.inl rfl)) hk12
      (.index hn12 hk13 hg13 hk15 (.bare hn15 (by simp [hk16]))) .done))
  have hkey : file.LeadAt 1 9 [2, 3, 4, 5] :=
    .keyed hn1 (.ofVariable hk2 (.index hn2 hk3 hg3 hk5 (.bare hn5 (by simp [hk7])))) hk7 hn7 (.inl rfl)
  have hrest : file.SlotsAt true 17 25 [(24, false)] [] :=
    .target (.keyed hn17 (.literal (by rw [hk19]; rfl) hn19) hk21 hn21 (.inr ⟨hk23, hn23⟩)) hk24
      (.bare hn24 (by simp [hsquare])) .done
  have hpattern : file.PatternAt 1 25 [(12, true), (24, false)] [2, 3, 4, 5, 13, 14, 15] :=
    ⟨.inl hopen, hclose, .inl hsquare, .nested hkey (.inl ⟨rfl, hk9⟩) hg9 (.inl hk16) hinner hn16 (.comma hk17 hrest)⟩
  obtain ⟨hassigned, _, _, hconsumed, _⟩ := ScanContext.pattern_binds_targets (warnings.context file) 6 hpattern
  refine ⟨file, hfile, hpattern, fun name hname => hassigned name ?_, hconsumed⟩
  show name ∈ [file.text 12, file.text 24]
  rwa [ha, hb]

end Linter

end Unassigned
