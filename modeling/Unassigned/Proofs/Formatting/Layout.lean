import Mathlib.Data.List.Sort
import Unassigned.Proofs.Search
import Unassigned.Scan.State

/-!
# `Proofs.Formatting.Layout` — the same code in different layouts

The code of a file is its significant tokens. A `Layout` says where they stand once white space and comments
are put between them. `Layout.Formats l c f` relates a stream `c` that is nothing but code with a stream `f`
that is `c` in the layout `l`.

**Every move through `f` is a move through `c`.** Searches, groups, elements of lists and neighbours commute with
the layout (`Formats.next?`, `Formats.search?`, `Formats.elements` and so on), so what a construct finds around
itself does not depend on white space and comments.
-/

namespace Unassigned

/-- Where the tokens of some code are put: the place and the line of each. -/
structure Layout where
  place : Nat → Nat
  line : Nat → Nat

/-- A token of the code in a layout. -/
def Token.layOut (l : Layout) (t : Token) : Token :=
  { t with line := l.line t.index, index := l.place t.index }

/-- The stream `f` is the code `c` in the layout `l`: the significant tokens of `f` are those of `c`, in
    order. -/
structure Layout.Formats (l : Layout) (c f : TokenStream) : Prop where
  mono : ∀ {i j : Nat}, i < j → l.place i < l.place j
  size : l.place c.size = f.size
  token : ∀ k, f.token (l.place k) = (c.token k).layOut l
  significant : ∀ k, (c.token k).isTrivial = false
  onto : ∀ i, (f.token i).isTrivial = false → ∃ k, l.place k = i
  closer : ∀ k, f.closer? (l.place k) = (c.closer? k).map l.place

namespace TokenStream

variable {f : TokenStream}

/-! ## Moves, by what they meet -/

theorem afterIndexes_eq (i : Nat) : f.afterIndexes i = match f.next? i with
    | none => (none, false)
    | some j => if f.isChar j '[' then ((f.afterIndexes (f.skipGroup j)).1, true) else (some j, false) := by
  rw [TokenStream.afterIndexes]
  cases f.next? i <;> rfl

/-- The elements of a list are its first one, if an element starts here, and those after it. -/
theorem elementsFrom_eq (separators terminators : List Char) (fresh : Bool) (i : Nat) :
    f.elementsFrom separators terminators fresh i
      = if f.kind i == .closeTag || f.isCharOf i terminators then []
        else (if fresh && !f.isCharOf i separators then [i] else [])
          ++ ((f.next? (if f.isCharOf i separators then i else f.skipGroup i)).map
            (f.elementsFrom separators terminators (f.isCharOf i separators))).getD [] := by
  rw [TokenStream.elementsFrom]
  split
  · rfl
  · dsimp only
    generalize f.next? (if f.isCharOf i separators then i else f.skipGroup i) = next
    cases next <;> split <;> rfl

end TokenStream

namespace Layout.Formats

variable {l : Layout} {c f : TokenStream} (h : l.Formats c f)
variable {i j : Nat}

include h

/-! ## Places -/

theorem lt_iff : l.place i < l.place j ↔ i < j := by
  constructor
  · intro hlt
    rcases Nat.lt_trichotomy i j with hij | rfl | hji
    · exact hij
    · omega
    · have := h.mono hji
      omega
  · exact h.mono

theorem le_iff : l.place i ≤ l.place j ↔ i ≤ j := by
  rw [← Nat.not_lt, h.lt_iff, Nat.not_lt]

theorem inj : l.place i = l.place j ↔ i = j := by
  rw [Nat.le_antisymm_iff, h.le_iff, h.le_iff, ← Nat.le_antisymm_iff]

/-- Between two tokens of the code there are only white space and comments. -/
theorem isTrivial_between {k : Nat} (hk : l.place k < i) (hi : i < l.place (k + 1)) :
    (f.token i).isTrivial = true := by
  cases htrivial : (f.token i).isTrivial with
  | true => rfl
  | false =>
      obtain ⟨m, rfl⟩ := h.onto i htrivial
      rw [h.lt_iff] at hk hi
      omega

/-- Before the first token of the code there are only white space and comments. -/
theorem isTrivial_before (hi : i < l.place 0) : (f.token i).isTrivial = true := by
  cases htrivial : (f.token i).isTrivial with
  | true => rfl
  | false =>
      obtain ⟨m, rfl⟩ := h.onto i htrivial
      rw [h.lt_iff] at hi
      omega

/-! ## Tokens -/

theorem kind (k : Nat) : f.kind (l.place k) = c.kind k := by
  rw [TokenStream.kind, h.token]
  rfl

theorem text (k : Nat) : f.text (l.place k) = c.text k := by
  rw [TokenStream.text, h.token]
  rfl

theorem isChar (k : Nat) (x : Char) : f.isChar (l.place k) x = c.isChar k x := by
  rw [TokenStream.isChar, h.token]
  rfl

theorem isCharOf (k : Nat) (xs : List Char) : f.isCharOf (l.place k) xs = c.isCharOf k xs := by
  rw [TokenStream.isCharOf, h.token]
  rfl

theorem isTrivial_place (k : Nat) : (f.token (l.place k)).isTrivial = false := by
  rw [h.token]
  exact h.significant k

/-! ## Neighbours -/

theorem nextFrom? (k : Nat) : f.nextFrom? (l.place k) = (c.nextFrom? k).map l.place := by
  by_cases hk : k < c.size
  · have hc : c.nextFrom? k = some k :=
      TokenStream.nextFrom?_eq_some.mpr ⟨Nat.le_refl k, hk, h.significant k, fun m _ _ => by omega⟩
    rw [hc, Option.map_some]
    have hplace : l.place k < f.size := by rw [← h.size]; exact h.mono hk
    exact TokenStream.nextFrom?_eq_some.mpr
      ⟨Nat.le_refl _, hplace, h.isTrivial_place k, fun m _ _ => by omega⟩
  · have hc : c.nextFrom? k = none := TokenStream.nextFrom?_eq_none.mpr fun m _ _ => by omega
    have hplace : f.size ≤ l.place k := by rw [← h.size, h.le_iff]; omega
    rw [hc, Option.map_none]
    exact TokenStream.nextFrom?_eq_none.mpr fun m _ _ => by omega

theorem next? (k : Nat) : f.next? (l.place k) = (c.next? k).map l.place := by
  show f.nextFrom? (l.place k + 1) = (c.nextFrom? (k + 1)).map l.place
  rw [← h.nextFrom?]
  have hlt : l.place k < l.place (k + 1) := h.mono (Nat.lt_succ_self k)
  cases hnext : f.nextFrom? (l.place (k + 1)) with
  | none =>
      rw [TokenStream.nextFrom?_eq_none] at hnext ⊢
      intro i hi hsize
      by_cases hik : l.place (k + 1) ≤ i
      · exact hnext i hik hsize
      · exact h.isTrivial_between (k := k) (by omega) (by omega)
  | some j =>
      rw [TokenStream.nextFrom?_eq_some] at hnext ⊢
      obtain ⟨hle, hsize, hsig, hall⟩ := hnext
      refine ⟨by omega, hsize, hsig, fun i hi hij => ?_⟩
      by_cases hik : l.place (k + 1) ≤ i
      · exact hall i hik hij
      · exact h.isTrivial_between (k := k) (by omega) (by omega)

theorem nextIs (k : Nat) (x : Char) : f.nextIs (l.place k) x = c.nextIs k x := by
  unfold TokenStream.nextIs
  rw [h.next?]
  cases c.next? k with
  | none => rfl
  | some j => exact h.isChar j x

theorem prev? (k : Nat) : f.prev? (l.place k) = (c.prev? k).map l.place := by
  cases k with
  | zero => exact TokenStream.prev?_eq_none fun m hm => h.isTrivial_before hm
  | succ k =>
      rw [TokenStream.prev?, h.significant k]
      exact TokenStream.prev?_eq_some (h.mono (Nat.lt_succ_self k)) (h.isTrivial_place k)
        fun m hm hmk => h.isTrivial_between hm hmk

theorem prevIs (k : Nat) (x : Kind) : f.prevIs (l.place k) x = c.prevIs k x := by
  unfold TokenStream.prevIs
  rw [h.prev?]
  cases c.prev? k with
  | none => rfl
  | some j => simp [h.kind]

theorem prevAny (k : Nat) (p : Kind → Bool) : f.prevAny (l.place k) p = c.prevAny k p := by
  unfold TokenStream.prevAny
  rw [h.prev?]
  cases c.prev? k with
  | none => rfl
  | some j => simp [h.kind]

theorem followsOperand (k : Nat) : f.followsOperand (l.place k) = c.followsOperand k :=
  h.prevAny k _

theorem skipGroup (k : Nat) : f.skipGroup (l.place k) = l.place (c.skipGroup k) := by
  unfold TokenStream.skipGroup
  rw [h.closer]
  cases c.closer? k with
  | none => rfl
  | some j => rfl

/-! ## Searches -/

theorem search? {jumps found jumps' found' : Nat → Bool} (hjumps : ∀ j, jumps' (l.place j) = jumps j)
    (hfound : ∀ j, found' (l.place j) = found j) (i : Nat) :
    f.search? jumps' found' (l.place i) = (c.search? jumps found i).map l.place := by
  fun_induction TokenStream.search? c jumps found i with
  | case1 i hnext =>
      rw [TokenStream.search?_of_none (by rw [h.next?, hnext]; rfl)]
      rfl
  | case2 i j hnext hj =>
      rw [TokenStream.search?_of_next (by rw [h.next?, hnext]; rfl), hfound, if_pos hj]
      rfl
  | case3 i j hnext hj ih =>
      rw [TokenStream.search?_of_next (by rw [h.next?, hnext]; rfl), hfound, if_neg hj, hjumps]
      split
      next hjump =>
        rw [dif_pos hjump] at ih
        rw [h.skipGroup, ih]
      next hjump =>
        rw [dif_neg hjump] at ih
        exact ih

theorem searchOutside? {found found' : Nat → Bool} (hfound : ∀ j, found' (l.place j) = found j) (i : Nat) :
    f.searchOutside? found' (l.place i) = (c.searchOutside? found i).map l.place :=
  h.search? (fun _ => rfl) hfound i

theorem statementEnd? (i : Nat) : f.statementEnd? (l.place i) = (c.statementEnd? i).map l.place :=
  h.searchOutside? (fun j => by rw [h.kind, h.isCharOf]) i

theorem statementEnd (i : Nat) : f.statementEnd (l.place i) = l.place (c.statementEnd i) := by
  unfold TokenStream.statementEnd
  rw [h.statementEnd?, ← h.size]
  cases c.statementEnd? i with
  | none => rfl
  | some j => rfl

theorem expressionEnd (i : Nat) : f.expressionEnd (l.place i) = l.place (c.expressionEnd i) := by
  unfold TokenStream.expressionEnd
  rw [h.searchOutside? (fun j => by rw [h.kind, h.isCharOf]) i, ← h.size]
  cases c.searchOutside? _ i with
  | none => rfl
  | some j => rfl

theorem afterReturnType? (i : Nat) :
    f.afterReturnType? (l.place i) = (c.afterReturnType? i).map l.place :=
  h.search? (fun j => h.isChar j _) (fun j => h.isCharOf j _) i

theorem skipKinds (isSkipped : Kind → Bool) (i : Nat) :
    f.skipKinds isSkipped (l.place i) = (c.skipKinds isSkipped i).map l.place := by
  unfold TokenStream.skipKinds
  rw [h.kind]
  split
  · exact h.search? (fun _ => rfl) (fun j => by rw [h.kind]) i
  · rfl

theorem afterIndexes (i : Nat) : f.afterIndexes (l.place i)
    = ((c.afterIndexes i).1.map l.place, (c.afterIndexes i).2) := by
  rw [TokenStream.afterIndexes_eq, TokenStream.afterIndexes_eq, h.next?]
  cases hj : c.next? i with
  | none => rfl
  | some j =>
      simp only [Option.map_some, h.isChar, h.skipGroup]
      split
      · rw [afterIndexes (c.skipGroup j)]
      · rfl
termination_by c.size - i
decreasing_by
  have hbounds := c.next?_bounds hj
  have hskip := c.le_skipGroup j
  omega

/-! ## Lists -/

theorem elementsFrom (separators terminators : List Char) (fresh : Bool) (i : Nat) :
    f.elementsFrom separators terminators fresh (l.place i)
      = (c.elementsFrom separators terminators fresh i).map l.place := by
  rw [TokenStream.elementsFrom_eq, TokenStream.elementsFrom_eq, h.kind, h.isCharOf, h.isCharOf]
  split
  · rfl
  · have hnext : f.next? (if c.isCharOf i separators then l.place i else f.skipGroup (l.place i))
        = (c.next? (if c.isCharOf i separators then i else c.skipGroup i)).map l.place := by
      split
      · exact h.next? i
      · rw [h.skipGroup, h.next?]
    rw [hnext, List.map_append]
    congr 1
    · split <;> rfl
    · cases hj : c.next? (if c.isCharOf i separators then i else c.skipGroup i) with
      | none => rfl
      | some j => exact elementsFrom separators terminators (c.isCharOf i separators) j
termination_by c.size - i
decreasing_by
  have hbounds := c.next?_bounds hj
  have hskip := c.le_skipGroup i
  split at hbounds <;> omega

theorem elements (separators terminators : List Char) (i : Nat) :
    f.elements separators terminators (l.place i)
      = (c.elements separators terminators i).map l.place := by
  unfold TokenStream.elements
  rw [h.nextFrom?]
  cases c.nextFrom? i with
  | none => rfl
  | some j => exact h.elementsFrom separators terminators true j

theorem arguments (paren : Nat) : f.arguments (l.place paren) = (c.arguments paren).map l.place := by
  unfold TokenStream.arguments TokenStream.elements
  rw [show f.nextFrom? (l.place paren + 1) = (c.nextFrom? (paren + 1)).map l.place from h.next? paren]
  cases c.nextFrom? (paren + 1) with
  | none => rfl
  | some j => exact h.elementsFrom _ _ true j

/-! ## Ranges -/

/-- The significant tokens in a range of `f` are the tokens of `c` in the range. -/
theorem filter_places {xs ys : List Nat} (hxs : xs.Pairwise (· < ·)) (hys : ys.Pairwise (· < ·))
    (hmem : ∀ k, l.place k ∈ xs ↔ k ∈ ys) {p q : Nat → Bool} (hpq : ∀ k, q (l.place k) = p k)
    (hsig : ∀ i, q i → (f.token i).isTrivial = false) : xs.filter q = (ys.filter p).map l.place := by
  refine (hxs.filter q).eq_of_mem_iff ?_ fun i => ?_
  · rw [List.pairwise_map]
    exact (hys.filter p).imp h.mono
  · rw [List.mem_filter, List.mem_map]
    constructor
    · rintro ⟨hi, hq⟩
      obtain ⟨k, rfl⟩ := h.onto i (hsig i hq)
      exact ⟨k, List.mem_filter.mpr ⟨(hmem k).mp hi, by rwa [← hpq]⟩, rfl⟩
    · rintro ⟨k, hk, rfl⟩
      obtain ⟨hk, hp⟩ := List.mem_filter.mp hk
      exact ⟨(hmem k).mpr hk, by rwa [hpq]⟩

/-- The significant tokens in a range are all tokens of the code in it. -/
theorem filter_significant {xs ys : List Nat} (hxs : xs.Pairwise (· < ·)) (hys : ys.Pairwise (· < ·))
    (hmem : ∀ k, l.place k ∈ xs ↔ k ∈ ys) :
    xs.filter (fun i => !(f.token i).isTrivial) = ys.map l.place := by
  have hplaces : xs.filter (fun i => !(f.token i).isTrivial) = (ys.filter fun _ => true).map l.place :=
    h.filter_places hxs hys hmem (fun k => by rw [h.isTrivial_place]; rfl) (fun i hi => by simpa using hi)
  rw [hplaces, List.filter_true]

theorem filter_range {p q : Nat → Bool} (hpq : ∀ k, q (l.place k) = p k)
    (hsig : ∀ i, q i → (f.token i).isTrivial = false) :
    (List.range f.size).filter q = ((List.range c.size).filter p).map l.place := by
  refine h.filter_places List.pairwise_lt_range List.pairwise_lt_range (fun k => ?_) hpq hsig
  rw [List.mem_range, List.mem_range, ← h.size, h.lt_iff]

end Layout.Formats

end Unassigned
