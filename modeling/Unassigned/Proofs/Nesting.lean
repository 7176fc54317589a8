import Unassigned.Source.File

/-!
# `Proofs.Nesting` — the bracketed groups of a file

The brackets of a file that could be parsed are **well nested**: every opening bracket has its closing one
further on, of the same sort, and a group that opens inside another one closes inside it. The moves through a
file rely on it: a search that jumps over groups never jumps out of a group that it is in.

The invariant of `pairBrackets` is about the tokens from a place `n` on and the brackets `opened` before it.
-/

namespace Unassigned

/-! ## Numbered tokens -/

/-- The tokens are numbered in order, from `n` on. -/
def NumberedFrom (n : Nat) (tokens : List Token) : Prop :=
  ∀ (k : Nat) (t : Token), tokens[k]? = some t → t.index = n + k

variable {n i : Nat} {t : Token} {rest tokens opened : List Token} {source name : String} {pairs : List (Nat × Nat)}
  {p : Nat × Nat} {f : SourceFile}

theorem NumberedFrom.head (h : NumberedFrom n (t :: rest)) : t.index = n :=
  h 0 t rfl

theorem NumberedFrom.tail (h : NumberedFrom n (t :: rest)) : NumberedFrom (n + 1) rest := by
  intro k u hk
  have := h (k + 1) u (by simpa using hk)
  omega

theorem NumberedFrom.getElem?_index (h : NumberedFrom 0 tokens) (ht : t ∈ tokens) : tokens[t.index]? = some t := by
  obtain ⟨k, hk⟩ := List.mem_iff_getElem?.mp ht
  have := h k t hk
  rwa [show t.index = k by omega]

theorem ofLexemes_numbered (before : Preceding) (line index : Nat) (lexemes : List Lexeme) :
    NumberedFrom index (Token.ofLexemes before line index lexemes) := by
  induction lexemes generalizing before line index with
  | nil => intro k t hk; simp [Token.ofLexemes] at hk
  | cons lexeme rest ih =>
      intro k t hk
      cases k with
      | zero =>
          obtain rfl : _ = t := by simpa [Token.ofLexemes] using hk
          rfl
      | succ k =>
          have := ih _ _ _ k t (by simpa [Token.ofLexemes] using hk)
          omega

theorem tokenize_numbered (h : tokenize source = .ok tokens) : NumberedFrom 0 tokens := by
  unfold tokenize at h
  cases hlexemes : lexemes source.toList with
  | error e => simp [hlexemes, Except.map] at h
  | ok ls =>
      obtain rfl : _ = tokens := by simpa [hlexemes, Except.map] using h
      exact ofLexemes_numbered {} 1 0 ls

/-! ## Pairs of brackets -/

/-- The brackets that are open at a place `n`, the innermost first. -/
structure OpenBrackets (n : Nat) (opened : List Token) : Prop where
  lt : ∀ t ∈ opened, t.index < n
  inner : opened.Pairwise fun a b => b.index < a.index

/-- What the pairs found from a place `n` on are like, `opened` being the brackets before it. -/
structure NestedPairs (n : Nat) (opened : List Token) (pairs : List (Nat × Nat)) : Prop where
  lt : ∀ p ∈ pairs, p.1 < p.2
  close : ∀ p ∈ pairs, n ≤ p.2
  opener : ∀ p ∈ pairs, (∃ t ∈ opened, t.index = p.1) ∨ n ≤ p.1
  /-- A group that opens inside another one closes inside it. -/
  nested : ∀ p ∈ pairs, ∀ q ∈ pairs, p.1 < q.1 → q.1 < p.2 → q.2 < p.2
  unique : ∀ p ∈ pairs, ∀ q ∈ pairs, p.1 = q.1 ∨ p.2 = q.2 → p = q

/-- The three ways in which pairing goes on after a token. -/
theorem pairBrackets_cons (h : pairBrackets opened (t :: rest) = .ok pairs) :
    (t.kind.closer?.isSome ∧ pairBrackets (t :: opened) rest = .ok pairs)
    ∨ (t.kind.closer? = none ∧ ∃ opener below pairs', opened = opener :: below
        ∧ t.kind.closing?.isSome ∧ opener.kind.closer? = t.kind.closing?
        ∧ pairBrackets below rest = .ok pairs' ∧ pairs = (opener.index, t.index) :: pairs')
    ∨ (t.kind.closer? = none ∧ t.kind.closing? = none ∧ pairBrackets opened rest = .ok pairs) := by
  unfold pairBrackets at h
  cases hopen : t.kind.closer? with
  | some c =>
      simp only [hopen] at h
      exact .inl ⟨rfl, h⟩
  | none =>
      cases hclose : t.kind.closing? with
      | none =>
          simp only [hopen, hclose] at h
          exact .inr (.inr ⟨rfl, rfl, h⟩)
      | some c =>
          simp only [hopen, hclose] at h
          split at h
          · simp at h
          next opener below =>
            split at h
            next hsame =>
              cases hrest : pairBrackets below rest with
              | error e => simp [hrest, Except.map] at h
              | ok pairs' =>
                  have hpairs : (opener.index, t.index) :: pairs' = pairs := by
                    simpa [hrest, Except.map] using h
                  exact .inr (.inl ⟨rfl, opener, below, pairs', rfl, rfl, hsame, hrest, hpairs.symm⟩)
            next => simp at h

namespace OpenBrackets

theorem succ (h : OpenBrackets n opened) : OpenBrackets (n + 1) opened where
  lt u hu := Nat.lt_succ_of_lt (h.lt u hu)
  inner := h.inner

/-- An opening bracket at the place becomes the innermost one. -/
theorem push (h : OpenBrackets n opened) (ht : t.index = n) : OpenBrackets (n + 1) (t :: opened) := by
  refine ⟨?_, List.pairwise_cons.mpr ⟨?_, h.inner⟩⟩
  · intro u hu
    rcases List.mem_cons.mp hu with rfl | hu
    · omega
    · exact Nat.lt_succ_of_lt (h.lt u hu)
  · intro u hu
    rw [ht]
    exact h.lt u hu

/-- A closing bracket at the place leaves the brackets around the innermost one. -/
theorem pop (h : OpenBrackets n (t :: opened)) : OpenBrackets (n + 1) opened where
  lt u hu := Nat.lt_succ_of_lt (h.lt u (List.mem_cons_of_mem t hu))
  inner := (List.pairwise_cons.mp h.inner).2

end OpenBrackets

namespace NestedPairs

theorem nil (n : Nat) (opened : List Token) : NestedPairs n opened [] := by
  constructor <;> simp

/-- Pairs from behind a place, seen from the place: a bracket that is open behind it was open before, or opens there. -/
theorem of_succ {opened' : List Token} (h : NestedPairs (n + 1) opened' pairs)
    (hopened : ∀ t ∈ opened', t ∈ opened ∨ n ≤ t.index) : NestedPairs n opened pairs := by
  refine ⟨h.lt, fun p hp => Nat.le_of_succ_le (h.close p hp), fun p hp => ?_, h.nested, h.unique⟩
  rcases h.opener p hp with ⟨t, ht, hindex⟩ | hle
  · rcases hopened t ht with hmem | hle
    · exact .inl ⟨t, hmem, hindex⟩
    · exact .inr (hindex ▸ hle)
  · exact .inr (Nat.le_of_succ_le hle)

/-- No pair from behind a place opens between the innermost bracket that closes there and the place. -/
theorem opens_outside (h : NestedPairs (n + 1) opened pairs) (hopened : OpenBrackets n (t :: opened)) (hp : p ∈ pairs) :
    p.1 < t.index ∨ n < p.1 := by
  rcases h.opener p hp with ⟨u, hu, hindex⟩ | hle
  · exact .inl (hindex ▸ (List.pairwise_cons.mp hopened.inner).1 u hu)
  · exact .inr hle

/-- A closing bracket at the place pairs with the innermost one. -/
theorem cons (h : NestedPairs (n + 1) opened pairs) (hopened : OpenBrackets n (t :: opened)) :
    NestedPairs n (t :: opened) ((t.index, n) :: pairs) := by
  have hseen : NestedPairs n (t :: opened) pairs := h.of_succ fun u hu => .inl (List.mem_cons_of_mem t hu)
  have ht : t.index < n := hopened.lt t List.mem_cons_self
  constructor
  case lt => exact List.forall_mem_cons.mpr ⟨ht, h.lt⟩
  case close => exact List.forall_mem_cons.mpr ⟨Nat.le_refl n, hseen.close⟩
  case opener => exact List.forall_mem_cons.mpr ⟨.inl ⟨t, List.mem_cons_self, rfl⟩, hseen.opener⟩
  case nested =>
    intro p hp q hq hpq hqp
    rcases List.mem_cons.mp hp with rfl | hp
    · rcases List.mem_cons.mp hq with rfl | hq
      · exact absurd hpq (Nat.lt_irrefl _)
      · have houtside := h.opens_outside hopened hq
        dsimp only at hpq hqp
        omega
    · rcases List.mem_cons.mp hq with rfl | hq
      · exact h.close p hp
      · exact h.nested p hp q hq hpq hqp
  case unique =>
    -- a pair from behind the place shares neither bracket with the new one
    have hother : ∀ q ∈ pairs, q.1 ≠ t.index ∧ q.2 ≠ n := by
      intro q hq
      have houtside := h.opens_outside hopened hq
      have hclose := h.close q hq
      omega
    intro p hp q hq hpq
    rcases List.mem_cons.mp hp with rfl | hp
    · rcases List.mem_cons.mp hq with rfl | hq
      · rfl
      · exact absurd hpq (not_or.mpr ⟨(hother q hq).1.symm, (hother q hq).2.symm⟩)
    · rcases List.mem_cons.mp hq with rfl | hq
      · exact absurd hpq (not_or.mpr (hother p hp))
      · exact h.unique p hp q hq hpq

end NestedPairs

theorem nestedPairs_of_pairBrackets (hrest : NumberedFrom n rest) (hopened : OpenBrackets n opened)
    (h : pairBrackets opened rest = .ok pairs) : NestedPairs n opened pairs := by
  induction rest generalizing n opened pairs with
  | nil =>
      obtain rfl : pairs = [] := by
        cases opened with
        | nil => simpa [pairBrackets] using h.symm
        | cons => simp [pairBrackets] at h
      exact .nil n opened
  | cons t rest ih =>
      have ht : t.index = n := hrest.head
      rcases pairBrackets_cons h with ⟨_, hr⟩ | ⟨_, opener, below, pairs', rfl, _, _, hr, rfl⟩ | ⟨_, _, hr⟩
      · refine (ih hrest.tail (hopened.push ht) hr).of_succ ?_
        exact List.forall_mem_cons.mpr ⟨.inr (Nat.le_of_eq ht.symm), fun u hu => .inl hu⟩
      · rw [ht]
        exact (ih hrest.tail hopened.pop hr).cons hopened
      · exact (ih hrest.tail hopened.succ hr).of_succ fun u hu => .inl hu

/-- The brackets of a pair are of one sort. -/
theorem sorts_of_pairBrackets (h : pairBrackets opened rest = .ok pairs) (hp : p ∈ pairs) :
    ∃ o c, (o ∈ opened ∨ o ∈ rest) ∧ o.index = p.1 ∧ c ∈ rest ∧ c.index = p.2
      ∧ c.kind.closer? = none ∧ c.kind.closing?.isSome ∧ o.kind.closer? = c.kind.closing? := by
  induction rest generalizing opened pairs with
  | nil =>
      cases opened with
      | nil =>
          obtain rfl : pairs = [] := by simpa [pairBrackets] using h.symm
          simp at hp
      | cons => simp [pairBrackets] at h
  | cons t rest ih =>
      rcases pairBrackets_cons h with ⟨_, hr⟩
        | ⟨hopen, opener, below, pairs', rfl, hclose, hsame, hr, rfl⟩ | ⟨_, _, hr⟩
      · obtain ⟨o, c, ho, hrest⟩ := ih hr hp
        refine ⟨o, c, ?_, hrest.1, by simp [hrest.2.1], hrest.2.2⟩
        rcases ho with ho | ho
        · rcases List.mem_cons.mp ho with rfl | ho
          · exact .inr (by simp)
          · exact .inl ho
        · exact .inr (by simp [ho])
      · rcases List.mem_cons.mp hp with rfl | hp
        · exact ⟨opener, t, .inl (by simp), rfl, by simp, rfl, hopen, hclose, hsame⟩
        · obtain ⟨o, c, ho, hrest⟩ := ih hr hp
          refine ⟨o, c, ?_, hrest.1, by simp [hrest.2.1], hrest.2.2⟩
          rcases ho with ho | ho
          · exact .inl (by simp [ho])
          · exact .inr (by simp [ho])
      · obtain ⟨o, c, ho, hrest⟩ := ih hr hp
        refine ⟨o, c, ?_, hrest.1, by simp [hrest.2.1], hrest.2.2⟩
        rcases ho with ho | ho
        · exact .inl ho
        · exact .inr (by simp [ho])

/-- Every opening bracket is in a pair. -/
theorem exists_pair_of_opener (h : pairBrackets opened rest = .ok pairs)
    (ht : t ∈ opened ∨ t ∈ rest ∧ t.kind.closer?.isSome) : ∃ p ∈ pairs, p.1 = t.index := by
  induction rest generalizing opened pairs with
  | nil =>
      cases opened with
      | nil => simp at ht
      | cons => simp [pairBrackets] at h
  | cons u rest ih =>
      rcases pairBrackets_cons h with ⟨_, hr⟩ | ⟨hopen, opener, below, pairs', rfl, _, _, hr, rfl⟩
        | ⟨hopen, _, hr⟩
      · apply ih hr
        rcases ht with ht | ⟨ht, hsome⟩
        · exact .inl (by simp [ht])
        · rcases List.mem_cons.mp ht with rfl | ht
          · exact .inl (by simp)
          · exact .inr ⟨ht, hsome⟩
      · rcases ht with ht | ⟨ht, hsome⟩
        · rcases List.mem_cons.mp ht with rfl | ht
          · exact ⟨(t.index, u.index), by simp, rfl⟩
          · obtain ⟨p, hp, hindex⟩ := ih hr (.inl ht)
            exact ⟨p, by simp [hp], hindex⟩
        · rcases List.mem_cons.mp ht with rfl | ht
          · simp [hopen] at hsome
          · obtain ⟨p, hp, hindex⟩ := ih hr (.inr ⟨ht, hsome⟩)
            exact ⟨p, by simp [hp], hindex⟩
      · apply ih hr
        rcases ht with ht | ⟨ht, hsome⟩
        · exact .inl ht
        · rcases List.mem_cons.mp ht with rfl | ht
          · simp [hopen] at hsome
          · exact .inr ⟨ht, hsome⟩

/-- Every closing bracket is in a pair. -/
theorem exists_pair_of_closer (h : pairBrackets opened rest = .ok pairs) (ht : t ∈ rest)
    (hopen : t.kind.closer? = none) (hclose : t.kind.closing?.isSome) : ∃ p ∈ pairs, p.2 = t.index := by
  induction rest generalizing opened pairs with
  | nil => cases ht
  | cons u rest ih =>
      rcases pairBrackets_cons h with ⟨hu, hr⟩ | ⟨_, opener, below, pairs', rfl, _, _, hr, rfl⟩ | ⟨_, hu, hr⟩
      · rcases List.mem_cons.mp ht with rfl | ht
        · simp [hopen] at hu
        · exact ih hr ht
      · rcases List.mem_cons.mp ht with rfl | ht
        · exact ⟨(opener.index, t.index), by simp, rfl⟩
        · obtain ⟨p, hp, hindex⟩ := ih hr ht
          exact ⟨p, by simp [hp], hindex⟩
      · rcases List.mem_cons.mp ht with rfl | ht
        · simp [hu] at hclose
        · exact ih hr ht

/-- No place is an opening and a closing bracket. -/
theorem ne_of_pairBrackets (hnumbered : NumberedFrom 0 tokens) (hpairs : pairBrackets [] tokens = .ok pairs)
    {q : Nat × Nat} (hp : p ∈ pairs) (hq : q ∈ pairs) : p.1 ≠ q.2 := by
  intro hsame
  obtain ⟨o, c, ho, hoi, _, _, _, hclosing, hsort⟩ := sorts_of_pairBrackets hpairs hp
  obtain ⟨_, c', _, _, hc', hci', hopen', _⟩ := sorts_of_pairBrackets hpairs hq
  have hoat := hnumbered.getElem?_index (ho.resolve_left (by simp))
  have hcat := hnumbered.getElem?_index hc'
  rw [hci', ← hsame, ← hoi, hoat] at hcat
  obtain rfl : o = c' := Option.some.inj hcat
  rw [← hsort, hopen'] at hclosing
  cases hclosing

theorem lt_length_of_pairBrackets (hnumbered : NumberedFrom 0 tokens) (hpairs : pairBrackets [] tokens = .ok pairs)
    (hp : p ∈ pairs) : p.2 < tokens.length := by
  obtain ⟨_, c, _, _, hc, hindex, _⟩ := sorts_of_pairBrackets hpairs hp
  have hat := hnumbered.getElem?_index hc
  rw [hindex] at hat
  exact (List.getElem?_eq_some_iff.mp hat).1

/-! ## Partners -/

@[simp] theorem size_setPair (table : Array (Option Nat)) (pair : Nat × Nat) :
    (setPair table pair).size = table.size := by
  simp [setPair]

theorem getD_setPair (table : Array (Option Nat)) (pair : Nat × Nat) (i : Nat) :
    (setPair table pair).getD i none
      = if i < table.size then
          if i = pair.2 then some pair.1 else if i = pair.1 then some pair.2 else table.getD i none
        else none := by
  by_cases hi : i < table.size
  · simp only [setPair, Array.getD_eq_getD_getElem?, Array.getElem?_setIfInBounds, if_pos hi]
    grind
  · have hsize : (setPair table pair).size ≤ i := by simpa using hi
    rw [if_neg hi, Array.getD_eq_getD_getElem?, Array.getElem?_eq_none hsize]
    rfl

/-- An entry of a table comes from a pair. -/
theorem mem_of_foldl_setPair {table : Array (Option Nat)} {j : Nat}
    (h : (pairs.foldl setPair table).getD i none = some j) :
    (i, j) ∈ pairs ∨ (j, i) ∈ pairs ∨ table.getD i none = some j := by
  induction pairs generalizing table with
  | nil => exact .inr (.inr h)
  | cons pair rest ih =>
      rcases ih h with hmem | hmem | hentry
      · exact .inl (by simp [hmem])
      · exact .inr (.inl (by simp [hmem]))
      · rw [getD_setPair] at hentry
        grind

/-- An entry of a table is never removed. -/
theorem isSome_foldl_setPair {table : Array (Option Nat)} (hi : i < table.size)
    (h : (table.getD i none).isSome ∨ ∃ p ∈ pairs, p.1 = i ∨ p.2 = i) :
    ((pairs.foldl setPair table).getD i none).isSome := by
  induction pairs generalizing table with
  | nil => simpa using h
  | cons pair rest ih =>
      refine ih (by simpa using hi) ?_
      rw [getD_setPair, if_pos hi]
      grind

theorem mem_of_partnerTable {size : Nat} {j : Nat} (h : (partnerTable size pairs).getD i none = some j) :
    (i, j) ∈ pairs ∨ (j, i) ∈ pairs := by
  rcases mem_of_foldl_setPair h with hmem | hmem | hentry
  · exact .inl hmem
  · exact .inr hmem
  · rw [Array.getD_eq_getD_getElem?, Array.getElem?_replicate] at hentry
    split at hentry <;> simp at hentry

/-! ## Streams -/

theorem Kind.eq_char_of_closing? {kind : Kind} {c : Char} (h : kind.closing? = some c) : kind = .char c := by
  unfold closing? at h
  split at h
  · rw [← Option.some.inj h]
  · rw [← Option.some.inj h]
  · rw [← Option.some.inj h]
  · cases h

namespace TokenStream

/-- The tokens of a stream are numbered, and its brackets are well nested. -/
structure WellNested (f : TokenStream) : Prop where
  index : ∀ i, (f.token i).index = i
  closer_lt : ∀ {i k : Nat}, f.closer? i = some k → k < f.size
  nested : ∀ {i j k : Nat}, f.closer? i = some k → i < j → j < k → f.skipGroup j < k
  /-- The two brackets of a group are of one sort. -/
  sorts : ∀ {i k : Nat}, f.closer? i = some k → (f.kind k).closer? = none
    ∧ (f.kind k).closing?.isSome ∧ (f.kind i).closer? = (f.kind k).closing?
  /-- Every opening bracket has its closing one. -/
  closes : ∀ {i : Nat}, (f.kind i).closer?.isSome → ∃ k, f.closer? i = some k

variable {f : TokenStream}
variable {i k : Nat} {tokens : List Token}

theorem closer?_eq_some : f.closer? i = some k ↔ f.partner? i = some k ∧ i < k := by
  simp [closer?, Option.filter_eq_some_iff]

theorem skipGroup_of_closer (h : f.closer? i = some k) : f.skipGroup i = k := by
  simp [skipGroup, h]

theorem skipGroup_of_none (h : f.closer? i = none) : f.skipGroup i = i := by
  simp [skipGroup, h]

/-- A closing bracket is no opening one. -/
theorem WellNested.closer_none (hf : f.WellNested) (h : f.closer? i = some k) : f.closer? k = none := by
  cases hk : f.closer? k with
  | none => rfl
  | some m =>
      have hopen := (hf.sorts hk).2.2
      rw [(hf.sorts h).1] at hopen
      have hclose := (hf.sorts hk).2.1
      rw [← hopen] at hclose
      simp at hclose

/-- The bracket that closes a group is the one that its opening bracket asks for. -/
theorem WellNested.kind_closer (hf : f.WellNested) (h : f.closer? i = some k) {c : Char}
    (hc : (f.kind i).closer? = some c) : f.kind k = .char c := by
  obtain ⟨_, _, hsort⟩ := hf.sorts h
  exact Kind.eq_char_of_closing? (hsort.symm.trans hc)

theorem token_eq {partners : Array (Option Nat)} {t : Token} (h : tokens[i]? = some t) :
    (TokenStream.mk tokens.toArray partners).token i = t := by
  simp [token, h]

/-- The partners in a stream are the pairs of brackets that were found. -/
theorem partner?_iff_mem {pairs : List (Nat × Nat)} (hnumbered : NumberedFrom 0 tokens)
    (hpairs : pairBrackets [] tokens = .ok pairs) :
    (TokenStream.mk tokens.toArray (partnerTable tokens.length pairs)).partner? i = some k
      ↔ (i, k) ∈ pairs ∨ (k, i) ∈ pairs := by
  have hnested := nestedPairs_of_pairBrackets hnumbered ⟨by simp, .nil⟩ hpairs
  -- a place in a pair has an entry, and no other pair can have made it
  have hentry : ∀ p ∈ pairs, p.1 = i ∨ p.2 = i →
      ∃ j, (partnerTable tokens.length pairs).getD i none = some j := by
    intro p hp hi
    have hlt := hnested.lt p hp
    have hbound := lt_length_of_pairBrackets hnumbered hpairs hp
    exact Option.isSome_iff_exists.mp (isSome_foldl_setPair (by simp; omega) (.inr ⟨p, hp, hi⟩))
  constructor
  · exact mem_of_partnerTable
  · rintro (hmem | hmem)
    · obtain ⟨j, hj⟩ := hentry _ hmem (.inl rfl)
      rcases mem_of_partnerTable hj with hother | hother
      · obtain rfl : j = k := (Prod.mk.inj (hnested.unique _ hother _ hmem (.inl rfl))).2
        exact hj
      · exact absurd rfl (ne_of_pairBrackets hnumbered hpairs hmem hother)
    · obtain ⟨j, hj⟩ := hentry _ hmem (.inr rfl)
      rcases mem_of_partnerTable hj with hother | hother
      · exact absurd rfl (ne_of_pairBrackets hnumbered hpairs hother hmem)
      · obtain rfl : j = k := (Prod.mk.inj (hnested.unique _ hother _ hmem (.inr rfl))).1
        exact hj

/-- The groups of a stream are the pairs of brackets that were found. -/
theorem closer?_iff_mem {pairs : List (Nat × Nat)} (hnumbered : NumberedFrom 0 tokens)
    (hpairs : pairBrackets [] tokens = .ok pairs) :
    (TokenStream.mk tokens.toArray (partnerTable tokens.length pairs)).closer? i = some k
      ↔ (i, k) ∈ pairs := by
  have hnested := nestedPairs_of_pairBrackets hnumbered ⟨by simp, .nil⟩ hpairs
  rw [closer?_eq_some, partner?_iff_mem hnumbered hpairs]
  constructor
  · rintro ⟨hmem | hmem, hlt⟩
    · exact hmem
    · exact absurd hlt (Nat.lt_asymm (hnested.lt _ hmem))
  · intro hmem
    exact ⟨.inl hmem, hnested.lt _ hmem⟩

theorem ofTokens_eq_ok (h : ofTokens tokens = .ok f) :
    ∃ pairs, pairBrackets [] tokens = .ok pairs
      ∧ f = ⟨tokens.toArray, partnerTable tokens.length pairs⟩ := by
  unfold ofTokens at h
  cases hpairs : pairBrackets [] tokens with
  | error e => simp [hpairs, bind, Except.bind] at h
  | ok pairs =>
      refine ⟨pairs, rfl, Eq.symm ?_⟩
      simpa [hpairs, bind, Except.bind, pure, Except.pure] using h

/-- **The brackets of a stream are well nested.** -/
theorem wellNested_of_ofTokens (hnumbered : NumberedFrom 0 tokens) (h : ofTokens tokens = .ok f) : f.WellNested := by
  obtain ⟨pairs, hpairs, rfl⟩ := ofTokens_eq_ok h
  have hnested := nestedPairs_of_pairBrackets hnumbered ⟨by simp, .nil⟩ hpairs
  refine ⟨?_, ?_, ?_, ?_, ?_⟩
  · intro i
    cases hi : tokens[i]? with
    | none => simp [token, hi]
    | some t => rw [token_eq hi, hnumbered i t hi, Nat.zero_add]
  · intro i k hk
    have hmem := (closer?_iff_mem hnumbered hpairs).mp hk
    simpa [size] using lt_length_of_pairBrackets hnumbered hpairs hmem
  · intro i j k hk hij hjk
    cases hj : (TokenStream.mk tokens.toArray (partnerTable tokens.length pairs)).closer? j with
    | none => rwa [skipGroup_of_none hj]
    | some m =>
        rw [skipGroup_of_closer hj]
        exact hnested.nested _ ((closer?_iff_mem hnumbered hpairs).mp hk) _
          ((closer?_iff_mem hnumbered hpairs).mp hj) hij hjk
  · intro i k hk
    obtain ⟨o, c, ho, hoi, hc, hck, hopen, hclosing, hsame⟩ :=
      sorts_of_pairBrackets hpairs ((closer?_iff_mem hnumbered hpairs).mp hk)
    have hoat := hnumbered.getElem?_index (ho.resolve_left (by simp))
    have hcat := hnumbered.getElem?_index hc
    rw [show o.index = i from hoi] at hoat
    rw [show c.index = k from hck] at hcat
    rw [kind, kind, token_eq hoat, token_eq hcat]
    exact ⟨hopen, hclosing, hsame⟩
  · intro i hi
    cases hat : tokens[i]? with
    | none => simp [kind, token, hat, Kind.closer?] at hi
    | some t =>
        rw [kind, token_eq hat] at hi
        obtain ⟨⟨o, k⟩, hp, hindex⟩ := exists_pair_of_opener hpairs
          (.inr ⟨List.mem_of_getElem? hat, hi⟩)
        have hti := hnumbered i t hat
        obtain rfl : o = i := by dsimp only at hindex; omega
        exact ⟨k, (closer?_iff_mem hnumbered hpairs).mpr hp⟩

end TokenStream

/-! ## Files -/

theorem SourceFile.ofTokens_eq_ok (h : SourceFile.ofTokens name tokens = .ok f) :
    TokenStream.ofTokens tokens = .ok f.toTokenStream ∧ f.toTokenStream.classes = .ok f.classes
      ∧ f.toTokenStream.functions f.classes = .ok f.functions ∧ f.name = name := by
  unfold ofTokens at h
  cases hstream : TokenStream.ofTokens tokens with
  | error e => simp [hstream, bind, Except.bind] at h
  | ok stream =>
      cases hclasses : stream.classes with
      | error e => simp [hstream, hclasses, bind, Except.bind] at h
      | ok classes =>
          cases hfunctions : stream.functions classes with
          | error e => simp [hstream, hclasses, hfunctions, bind, Except.bind] at h
          | ok functions =>
              obtain rfl : _ = f := by
                simpa [hstream, hclasses, hfunctions, bind, Except.bind, pure, Except.pure] using h
              exact ⟨rfl, hclasses, hfunctions, rfl⟩

theorem SourceFile.ofSource_eq_ok (h : SourceFile.ofSource name source = .ok f) :
    ∃ tokens, tokenize source = .ok tokens ∧ SourceFile.ofTokens name tokens = .ok f := by
  unfold ofSource at h
  cases htokens : tokenize source with
  | error e => simp [htokens, bind, Except.bind] at h
  | ok tokens => exact ⟨tokens, rfl, by simpa [htokens, bind, Except.bind] using h⟩

theorem exists_ok_of_any {ε α : Type} {x : Except ε α} {p : α → Bool} (h : x.toOption.any p) :
    ∃ a, x = .ok a ∧ p a := by
  cases x with
  | error e => cases h
  | ok a => exact ⟨a, rfl, h⟩

/-- What is decided of a result holds of it. -/
theorem exists_ok_of_decide {ε α : Type} {x : Except ε α} {P : α → Prop} [DecidablePred P]
    (h : x.toOption.any fun a => decide (P a)) : ∃ a, x = .ok a ∧ P a := by
  obtain ⟨a, ha, hdecide⟩ := exists_ok_of_any h
  exact ⟨a, ha, of_decide_eq_true hdecide⟩

/-- **The brackets of a file that could be parsed are well nested.** -/
theorem SourceFile.wellNested_of_ofSource (h : SourceFile.ofSource name source = .ok f) : f.WellNested := by
  obtain ⟨tokens, htokens, hf⟩ := ofSource_eq_ok h
  exact TokenStream.wellNested_of_ofTokens (tokenize_numbered htokens) (ofTokens_eq_ok hf).1

end Unassigned
