import Unassigned.Proofs.Brackets
import Unassigned.Proofs.ParameterMarks

/-!
# `Proofs.ParameterForm` — a parameter is read off the form that it has

The form of a parameter is told by its significant tokens, without places and partners. A `ParameterLead` is what can
stand before the variable: tokens of types and modifiers, and groups with **well-nested brackets** inside. Behind it
come the ellipsis, if there is one, and the variable.

Reading such a parameter gives its variable (`parameterAt_of_form`). It is variadic if it has the ellipsis, and by
reference if the last token of its lead is an ampersand. That the reading passes a group as a whole is a fact about
`pairBrackets`: well-nested brackets are paired with each other, whatever is open before them (`Balanced.passed`).
-/

namespace Unassigned

/-! ## Well-nested brackets are passed -/

variable {t : Token}

theorem Token.Spelled.closing?_of_closing (h : t.Spelled) {sort : BracketSort}
    (hsort : t.bracket? = some (.closing sort)) : t.kind.closer? = none ∧ t.kind.closing? = some sort.closer := by
  rcases h.bracket_cases with ⟨_, hopening, _⟩ | ⟨sort', hsort', hcloser, hclosing⟩ | ⟨hnone, _⟩
  · cases hsort.symm.trans hopening
  · cases hsort.symm.trans hsort'
    exact ⟨hcloser, hclosing⟩
  · cases hsort.symm.trans hnone

theorem Token.Spelled.not_bracket (h : t.Spelled) (hnone : t.bracket? = none) :
    t.kind.closer? = none ∧ t.kind.closing? = none := by
  rcases h.bracket_cases with ⟨_, hopening, _⟩ | ⟨_, hclosing, _⟩ | ⟨_, hcloser, hclosing⟩
  · cases hnone.symm.trans hopening
  · cases hnone.symm.trans hclosing
  · exact ⟨hcloser, hclosing⟩

/-- Pairing goes on behind the tokens with the brackets that were open before them. -/
def Passed (tokens : List Token) : Prop :=
  ∀ (opened rest : List Token) (pairs : List (Nat × Nat)), pairBrackets opened (tokens ++ rest) = .ok pairs →
    ∃ more, pairBrackets opened rest = .ok more ∧ more ⊆ pairs

namespace Passed

variable {tokens after : List Token}

theorem append (h : Passed tokens) (hafter : Passed after) : Passed (tokens ++ after) := by
  intro opened rest pairs hpairs
  rw [List.append_assoc] at hpairs
  obtain ⟨more, hmore, hsub⟩ := h opened (after ++ rest) pairs hpairs
  obtain ⟨last, hlast, hsub'⟩ := hafter opened rest more hmore
  exact ⟨last, hlast, List.Subset.trans hsub' hsub⟩

/-- Tokens that are no brackets are passed. -/
theorem of_no_brackets (hspelled : ∀ t ∈ tokens, t.Spelled) (h : ∀ t ∈ tokens, t.bracket? = none) :
    Passed tokens := by
  induction tokens with
  | nil =>
      intro opened rest pairs hpairs
      exact ⟨pairs, hpairs, List.Subset.refl pairs⟩
  | cons t tokens ih =>
      obtain ⟨hnone, htokens⟩ := List.forall_mem_cons.mp h
      obtain ⟨ht, hspelled⟩ := List.forall_mem_cons.mp hspelled
      obtain ⟨hopen, hclose⟩ := ht.not_bracket hnone
      intro opened rest pairs hpairs
      rcases pairBrackets_cons hpairs with ⟨hsome, _⟩ | ⟨_, _, _, _, _, hsome, _⟩ | ⟨_, _, hrest⟩
      · rw [hopen] at hsome
        cases hsome
      · rw [hclose] at hsome
        cases hsome
      · exact ih hspelled htokens opened rest pairs hrest

/-- A group is a pair of its brackets, and pairing goes on behind it. -/
theorem pair_of_group (h : Passed tokens) {o t : Token} {c : Char} (ho : o.kind.closer? = some c)
    (ht : t.kind.closer? = none ∧ t.kind.closing? = some c) {opened rest : List Token} {pairs : List (Nat × Nat)}
    (hpairs : pairBrackets opened (o :: (tokens ++ t :: rest)) = .ok pairs) :
    (o.index, t.index) ∈ pairs ∧ ∃ more, pairBrackets opened rest = .ok more ∧ more ⊆ pairs := by
  rcases pairBrackets_cons hpairs with ⟨_, hinside⟩ | ⟨hnone, _⟩ | ⟨hnone, _⟩
  · obtain ⟨more, hmore, hsub⟩ := h _ _ _ hinside
    rcases pairBrackets_cons hmore with ⟨hsome, _⟩ | ⟨_, _, _, last, heq, _, _, hlast, rfl⟩ | ⟨_, hnone, _⟩
    · rw [ht.1] at hsome
      cases hsome
    · obtain ⟨rfl, rfl⟩ := List.cons.inj heq
      exact ⟨hsub List.mem_cons_self, last, hlast, fun pair hpair => hsub (List.mem_cons_of_mem _ hpair)⟩
    · rw [ht.2] at hnone
      cases hnone
  · rw [ho] at hnone
    cases hnone
  · rw [ho] at hnone
    cases hnone

theorem group (h : Passed tokens) {o t : Token} {c : Char} (ho : o.kind.closer? = some c)
    (ht : t.kind.closer? = none ∧ t.kind.closing? = some c) : Passed (o :: (tokens ++ [t])) := by
  intro opened rest pairs hpairs
  rw [List.cons_append, List.append_assoc] at hpairs
  exact (h.pair_of_group ho ht hpairs).2

end Passed

/-- **Well-nested brackets are passed.** -/
theorem Balanced.passed {word : List Bracket} (h : Balanced word) {tokens : List Token}
    (hspelled : ∀ t ∈ tokens, t.Spelled) (hword : bracketWord tokens = word) : Passed tokens := by
  induction h generalizing tokens with
  | nil => exact .of_no_brackets hspelled (List.filterMap_eq_nil_iff.mp hword)
  | @group inside after sort _ _ ihinside ihafter =>
      -- the tokens are cut at the two brackets of the first group
      obtain ⟨front, o, behind, rfl, hfront, ho, hbehind⟩ := List.filterMap_eq_cons_iff.mp hword
      obtain ⟨first, second, rfl, hfirst, hsecond⟩ := List.filterMap_eq_append_iff.mp hbehind
      obtain ⟨gap, t, last, rfl, hgap, ht, hlast⟩ := List.filterMap_eq_cons_iff.mp hsecond
      simp only [List.forall_mem_append, List.forall_mem_cons] at hspelled
      obtain ⟨hspelledFront, hspelledO, hspelledFirst, hspelledGap, hspelledT, hspelledLast⟩ := hspelled
      have hinside : Passed (first ++ gap) :=
        Passed.append (ihinside hspelledFirst hfirst) (.of_no_brackets hspelledGap hgap)
      have hgroup := hinside.group (hspelledO.closer?_of_opening ho) (hspelledT.closing?_of_closing ht)
      have hall := (Passed.of_no_brackets hspelledFront hfront).append (hgroup.append (ihafter hspelledLast hlast))
      simpa using hall

/-- Pairing the tokens behind some others gives pairs of all of them. -/
theorem pairBrackets_behind {front rest opened : List Token} {pairs : List (Nat × Nat)}
    (h : pairBrackets opened (front ++ rest) = .ok pairs) :
    ∃ opened' more, pairBrackets opened' rest = .ok more ∧ more ⊆ pairs := by
  induction front generalizing opened pairs with
  | nil => exact ⟨opened, pairs, h, List.Subset.refl pairs⟩
  | cons t front ih =>
      rcases pairBrackets_cons h with ⟨_, hrest⟩ | ⟨_, _, _, last, _, _, _, hrest, rfl⟩ | ⟨_, _, hrest⟩
      · exact ih hrest
      · obtain ⟨opened', more, hmore, hsub⟩ := ih hrest
        exact ⟨opened', more, hmore, fun pair hpair => List.mem_cons_of_mem _ (hsub hpair)⟩
      · exact ih hrest

/-! ## Significant tokens -/

theorem bracket?_of_isTrivial (h : t.isTrivial) : t.bracket? = none := by
  unfold Token.isTrivial at h
  unfold Token.bracket?
  cases hkind : t.kind with
  | char | curlyOpen | dollarCurlyOpen | attributeOpen =>
      rw [hkind] at h
      cases h
  | _ => rfl

theorem bracketWord_significant (tokens : List Token) :
    bracketWord (tokens.filter fun t => !t.isTrivial) = bracketWord tokens := by
  unfold bracketWord
  rw [List.filterMap_filter]
  apply List.filterMap_congr
  intro t _
  cases htrivial : t.isTrivial with
  | false => rfl
  | true => exact (bracket?_of_isTrivial htrivial).symm

namespace TokenStream

variable {f : TokenStream} {i j : Nat} {t : Token} {rest : List Token}

/-- The significant tokens from a place on. -/
def significantFrom (f : TokenStream) (i : Nat) : List Token :=
  (f.tokens.toList.drop i).filter fun t => !t.isTrivial

theorem drop_tokens (hi : i < f.size) : f.tokens.toList.drop i = f.token i :: f.tokens.toList.drop (i + 1) := by
  have hlength : i < f.tokens.toList.length := by simpa [size] using hi
  rw [List.drop_eq_getElem_cons hlength]
  congr 1
  rw [token, Array.getD_eq_getD_getElem?, Array.getElem?_eq_getElem (by simpa [size] using hi)]
  rfl

theorem lt_size_of_significantFrom (h : f.significantFrom i ≠ []) : i < f.size := by
  rcases Nat.lt_or_ge i f.size with hlt | hge
  · exact hlt
  · have hlength : f.tokens.toList.length ≤ i := by simpa [size] using hge
    rw [significantFrom, List.drop_eq_nil_of_le hlength] at h
    exact absurd rfl h

theorem significantFrom_cons (hi : i < f.size) (hsig : (f.token i).isTrivial = false) :
    f.significantFrom i = f.token i :: f.significantFrom (i + 1) := by
  rw [significantFrom, drop_tokens hi, List.filter_cons_of_pos (by rw [hsig]; rfl)]
  rfl

/-- The first of the significant tokens from a place on is the next one. -/
theorem exists_nextFrom? (h : f.significantFrom i = t :: rest) :
    ∃ j, f.nextFrom? i = some j ∧ f.token j = t ∧ f.significantFrom (j + 1) = rest := by
  fun_induction nextFrom? f i with
  | case1 i hi htrivial ih =>
      rw [significantFrom, drop_tokens hi, List.filter_cons_of_neg (by rw [htrivial]; decide)] at h
      exact ih h
  | case2 i hi htrivial =>
      rw [significantFrom_cons hi (by simpa using htrivial)] at h
      obtain ⟨ht, hrest⟩ := List.cons.inj h
      exact ⟨i, rfl, ht, hrest⟩
  | case3 i hi =>
      refine absurd (lt_size_of_significantFrom ?_) hi
      rw [h]
      exact List.cons_ne_nil t rest

/-- The tokens up to one of the significant tokens from a place on. -/
theorem exists_cut {front : List Token} (h : f.significantFrom i = front ++ t :: rest) :
    ∃ between j, f.tokens.toList.drop i = between ++ t :: f.tokens.toList.drop (j + 1)
      ∧ (between.filter fun u => !u.isTrivial) = front ∧ f.token j = t ∧ f.significantFrom (j + 1) = rest := by
  obtain ⟨first, behind, hdrop, hfirst, hbehind⟩ := List.filter_eq_append_iff.mp h
  obtain ⟨gap, last, rfl, hgap, _, hlast⟩ := List.filter_eq_cons_iff.mp hbehind
  rw [← List.append_assoc] at hdrop
  have hbehind : f.tokens.toList.drop (i + (first ++ gap).length + 1) = last := by
    rw [Nat.add_assoc, ← List.drop_drop, hdrop, ← List.drop_drop, List.drop_left]
    rfl
  have htoken : f.tokens.toList[i + (first ++ gap).length]? = some t := by
    rw [← List.getElem?_drop, hdrop, List.getElem?_append_right (Nat.le_refl _), Nat.sub_self]
    rfl
  refine ⟨first ++ gap, i + (first ++ gap).length, ?_, ?_, ?_, ?_⟩
  · rw [hbehind, hdrop]
  · rw [List.filter_append, hfirst, List.filter_eq_nil_iff.mpr hgap, List.append_nil]
  · simp only [token, Array.getD_eq_getD_getElem?, ← Array.getElem?_toList, htoken, Option.getD_some]
  · rw [significantFrom, hbehind, hlast]

/-- The place has a significant token, and `tokens` are the significant ones from there on. -/
structure StartsAt (f : TokenStream) (i : Nat) (tokens : List Token) : Prop where
  lt_size : i < f.size
  significant : (f.token i).isTrivial = false
  tokens_eq : f.significantFrom i = tokens

namespace StartsAt

theorem token_eq (h : f.StartsAt i (t :: rest)) : f.token i = t := by
  have heq := h.tokens_eq
  rw [significantFrom_cons h.lt_size h.significant] at heq
  exact (List.cons.inj heq).1

theorem rest_eq (h : f.StartsAt i (t :: rest)) : f.significantFrom (i + 1) = rest := by
  have heq := h.tokens_eq
  rw [significantFrom_cons h.lt_size h.significant] at heq
  exact (List.cons.inj heq).2

end StartsAt

/-- The significant tokens behind a place start at the next one. -/
theorem exists_next? {tokens : List Token} (h : f.significantFrom (i + 1) = tokens) (hne : tokens ≠ []) :
    ∃ j, f.next? i = some j ∧ f.StartsAt j tokens := by
  obtain ⟨t, rest, rfl⟩ := List.exists_cons_of_ne_nil hne
  obtain ⟨j, hj, ht, hrest⟩ := exists_nextFrom? h
  obtain ⟨_, hlt, hsig, _⟩ := nextFrom?_eq_some.mp hj
  refine ⟨j, hj, hlt, hsig, ?_⟩
  rw [significantFrom_cons hlt hsig, ht, hrest]

end TokenStream

/-! ## The form of a parameter -/

/-- The kind of a token in a type or a modifier. -/
def Kind.isTypePart (kind : Kind) : Bool :=
  TokenStream.isParameterPart kind || [.char '?', .char '|', .char '&'].contains kind

/-- The brackets of an attribute or of a parenthesised group. -/
def Token.Encloses (o c : Token) : Prop :=
  o.kind = .attributeOpen ∧ c.kind = .char ']' ∨ o.kind = .char '(' ∧ c.kind = .char ')'

/-- What can stand before the variable of a parameter and its ellipsis: attributes, parenthesised groups, and tokens of
    types and modifiers, in any order. -/
inductive ParameterLead : List Token → Prop where
  | nil : ParameterLead []
  | token {t : Token} {rest : List Token} : t.kind.isTypePart → ParameterLead rest → ParameterLead (t :: rest)
  | group {o c : Token} {inside rest : List Token} : o.Encloses c → Balanced (bracketWord inside) →
      ParameterLead rest → ParameterLead (o :: (inside ++ c :: rest))

/-- The significant tokens of a parameter, up to its variable. -/
structure ParameterForm where
  lead : List Token
  ellipsis? : Option Token
  var : Token
  lead_form : ParameterLead lead
  ellipsis_kind : ∀ e ∈ ellipsis?, e.kind = .ellipsis
  var_kind : var.kind = .var

def ParameterForm.tokens (p : ParameterForm) : List Token :=
  p.lead ++ (p.ellipsis?.toList ++ [p.var])

namespace Token.Encloses

variable {o c : Token}

theorem closer (h : o.Encloses c) :
    ∃ d, o.kind.closer? = some d ∧ c.kind.closer? = none ∧ c.kind.closing? = some d := by
  rcases h with ⟨ho, hc⟩ | ⟨ho, hc⟩
  · rw [ho, hc]
    exact ⟨']', rfl, rfl, rfl⟩
  · rw [ho, hc]
    exact ⟨')', rfl, rfl, rfl⟩

theorem kind_ne (h : o.Encloses c) {kind : Kind} (hkind : kind.closer? = none) : o.kind ≠ kind := by
  obtain ⟨d, hcloser, _⟩ := h.closer
  rintro rfl
  rw [hkind] at hcloser
  cases hcloser

/-- No bracket is an ampersand. -/
theorem not_ampersand (h : o.Encloses c) : o.isChar '&' = false ∧ c.isChar '&' = false := by
  unfold isChar
  rcases h with ⟨ho, hc⟩ | ⟨ho, hc⟩
  · rw [ho, hc]
    decide
  · rw [ho, hc]
    decide

end Token.Encloses

theorem Kind.ne_of_isTypePart {kind other : Kind} (h : kind.isTypePart) (hother : other.isTypePart = false) :
    kind ≠ other := by
  rintro rfl
  rw [h] at hother
  cases hother

/-- What a lead starts with is no ellipsis and no variable. -/
theorem ParameterLead.head_kind {rest : List Token} (h : ParameterLead (t :: rest)) :
    t.kind ≠ .var ∧ t.kind ≠ .ellipsis := by
  cases h with
  | token ht _ => exact ⟨Kind.ne_of_isTypePart ht (by decide), Kind.ne_of_isTypePart ht (by decide)⟩
  | group hgroup _ _ => exact ⟨hgroup.kind_ne rfl, hgroup.kind_ne rfl⟩

namespace TokenStream

variable {f : TokenStream} {i j : Nat} {isRef isVariadic : Bool}
variable {c : Token}

/-! ## One part is passed -/

theorem isLead_of_isTypePart (h : (f.kind i).isTypePart) : f.isLead i := by
  rcases Bool.or_eq_true_iff.mp h with hpart | hchar
  · simp [isLead, hpart]
  · have hmem : f.kind i = .char '?' ∨ f.kind i = .char '|' ∨ f.kind i = .char '&' := by
      simpa using hchar
    have hkind : (f.token i).kind = f.kind i := rfl
    rcases hmem with hmem | hmem | hmem <;>
      simp [isLead, isChar, Token.isChar, isCharOf, Token.isCharOf, hkind, hmem]

theorem leadEnd_of_ne (hattribute : f.kind i ≠ .attributeOpen) (hparen : f.kind i ≠ .char '(') :
    f.leadEnd i = i := by
  refine if_neg ?_
  rw [Bool.or_eq_true_iff, not_or, beq_iff_eq, isChar_iff]
  exact ⟨hattribute, hparen⟩

theorem isLead_of_encloses (h : (f.token i).Encloses c) : f.isLead i := by
  rcases h with ⟨ho, _⟩ | ⟨ho, _⟩
  · simp [isLead, kind, ho]
  · simp [isLead, isChar, Token.isChar, ho]

theorem leadEnd_of_encloses (h : (f.token i).Encloses c) : f.leadEnd i = f.skipGroup i := by
  refine if_pos ?_
  rcases h with ⟨ho, _⟩ | ⟨ho, _⟩
  · simp [kind, ho]
  · simp [isChar, Token.isChar, ho]

/-- A token of a type is passed, and is a mark if it is an ampersand before the ellipsis or the variable. -/
theorem parameterFrom_of_isTypePart (h : (f.kind i).isTypePart) (hnext : f.next? i = some j) :
    f.parameterFrom isRef isVariadic i
      = f.parameterFrom (isRef || (f.isChar i '&' && (f.kind j == .var || f.kind j == .ellipsis))) isVariadic j := by
  have hend : f.leadEnd i = i :=
    leadEnd_of_ne (Kind.ne_of_isTypePart h (by decide)) (Kind.ne_of_isTypePart h (by decide))
  have hnot : (f.kind i == .ellipsis) = false := beq_false_of_ne (Kind.ne_of_isTypePart h (by decide))
  rw [parameterFrom_of_lead (isLead_of_isTypePart h) (by rw [hend]; exact hnext), hnot, Bool.or_false]

/-- A group is passed, and nothing in it is a mark. -/
theorem parameterFrom_of_encloses (h : (f.token i).Encloses c) {last : Nat} (hlast : f.closer? i = some last)
    (hnext : f.next? last = some j) : f.parameterFrom isRef isVariadic i = f.parameterFrom isRef isVariadic j := by
  have hend : f.leadEnd i = last := by rw [leadEnd_of_encloses h, skipGroup_of_closer hlast]
  have hnot : (f.kind i == .ellipsis) = false := beq_false_of_ne (h.kind_ne rfl)
  rw [parameterFrom_of_lead (isLead_of_encloses h) (by rw [hend]; exact hnext), hnot, isChar, h.not_ampersand.1,
    Bool.false_and, Bool.or_false, Bool.or_false]

/-- The bracket that encloses a well-nested group closes it. -/
theorem closer?_of_encloses {source : String} {tokens : List Token} (htokens : tokenize source = .ok tokens)
    (hstream : ofTokens tokens = .ok f) {o : Token} {inside rest : List Token}
    (h : f.StartsAt i (o :: (inside ++ c :: rest))) (hgroup : o.Encloses c) (hinside : Balanced (bracketWord inside)) :
    ∃ j, f.closer? i = some j ∧ f.significantFrom (j + 1) = rest := by
  have hspelled := tokenize_spelled htokens
  have hnumbered := tokenize_numbered htokens
  have hindex := (wellNested_of_ofTokens hnumbered hstream).index
  obtain ⟨pairs, hpairs, rfl⟩ := ofTokens_eq_ok hstream
  -- the tokens between the two brackets, with white space and comments
  obtain ⟨between, j, hdrop, hbetween, hj, hrest⟩ := exists_cut h.rest_eq
  have hsplit : tokens = tokens.take i ++ o :: (between ++ c :: tokens.drop (j + 1)) := by
    have hfrom := drop_tokens h.lt_size
    rw [h.token_eq, hdrop] at hfrom
    rw [← hfrom, List.take_append_drop]
  have hpassed : Passed between := by
    refine hinside.passed ?_ ?_
    · intro t ht
      apply hspelled
      rw [hsplit]
      simp [ht]
    · rw [← hbetween, bracketWord_significant]
  have hbehind := hpairs
  rw [hsplit] at hbehind
  obtain ⟨opened, more, hmore, hsub⟩ := pairBrackets_behind hbehind
  obtain ⟨d, ho, hc⟩ := hgroup.closer
  have hpair := hsub (hpassed.pair_of_group ho hc hmore).1
  rw [← h.token_eq, ← hj, hindex, hindex] at hpair
  exact ⟨j, (closer?_iff_mem hnumbered hpairs).mpr hpair, hrest⟩

/-! ## The reading of a parameter -/

section Form
variable {source : String} {tokens : List Token} (htokens : tokenize source = .ok tokens)
  (hstream : ofTokens tokens = .ok f) {lead : List Token} {ellipsis? : Option Token} {v : Token} {rest : List Token}

/-- Only in front of the ellipsis and the variable there is no more lead. -/
theorem marks_of_startsAt (hlead : ParameterLead lead) (hellipsis : ∀ e ∈ ellipsis?, e.kind = .ellipsis)
    (hv : v.kind = .var) (h : f.StartsAt j (lead ++ (ellipsis?.toList ++ v :: rest))) :
    (f.kind j == .var || f.kind j == .ellipsis) = lead.isEmpty := by
  cases lead with
  | nil =>
      cases ellipsis? with
      | none => simp [kind, h.token_eq, hv]
      | some e => simp [kind, h.token_eq, hellipsis e rfl]
  | cons t lead =>
      obtain ⟨hvar, hellipsis⟩ := hlead.head_kind
      simp [kind, h.token_eq, hvar, hellipsis]

include htokens hstream

theorem parameterFrom_of_var (hv : v.kind = .var) (h : f.StartsAt i (v :: rest)) :
    f.parameterFrom isRef isVariadic i = ⟨some v.index, isRef, isVariadic⟩ := by
  have hkind : f.kind i = .var := by rw [kind, h.token_eq, hv]
  have hindex : v.index = i := by
    rw [← h.token_eq]
    exact (wellNested_of_ofTokens (tokenize_numbered htokens) hstream).index i
  rw [parameterFrom_of_not_lead (not_isLead_of_var hkind), hkind, hindex]
  rfl

theorem parameterFrom_of_ellipsis? (hellipsis : ∀ e ∈ ellipsis?, e.kind = .ellipsis) (hv : v.kind = .var)
    (h : f.StartsAt i (ellipsis?.toList ++ v :: rest)) :
    f.parameterFrom isRef isVariadic i = ⟨some v.index, isRef, isVariadic || ellipsis?.isSome⟩ := by
  cases ellipsis? with
  | none =>
      rw [parameterFrom_of_var htokens hstream hv h, Option.isSome_none, Bool.or_false]
  | some e =>
      have hkind : f.kind i = .ellipsis := by rw [kind, h.token_eq, hellipsis e rfl]
      obtain ⟨j, hnext, hj⟩ := exists_next? h.rest_eq (List.cons_ne_nil v rest)
      have hend : f.leadEnd i = i := by
        apply leadEnd_of_ne <;>
        · rw [hkind]
          exact Kind.noConfusion
      rw [parameterFrom_of_lead (isLead_of_ellipsis hkind) (by rw [hend]; exact hnext),
        parameterFrom_of_var htokens hstream hv hj]
      simp [isChar, Token.isChar, show (f.token i).kind = .ellipsis from hkind, hkind]

/-- **The run** over a lead, whatever was seen before. -/
theorem parameterFrom_of_lead_form (hlead : ParameterLead lead) (hellipsis : ∀ e ∈ ellipsis?, e.kind = .ellipsis)
    (hv : v.kind = .var) (h : f.StartsAt i (lead ++ (ellipsis?.toList ++ v :: rest))) :
    f.parameterFrom isRef isVariadic i = ⟨some v.index, isRef || lead.getLast?.any (Token.isChar · '&'),
      isVariadic || ellipsis?.isSome⟩ := by
  induction hlead generalizing i isRef isVariadic with
  | nil =>
      rw [parameterFrom_of_ellipsis? htokens hstream hellipsis hv h]
      simp
  | @token t lead ht hlead ih =>
      have htoken : f.token i = t := h.token_eq
      have hpart : (f.kind i).isTypePart := by rw [kind, htoken]; exact ht
      obtain ⟨j, hnext, hj⟩ := exists_next? h.rest_eq (by simp)
      rw [parameterFrom_of_isTypePart hpart hnext, ih hj, marks_of_startsAt hlead hellipsis hv hj, isChar, htoken,
        Bool.or_assoc]
      congr 2
      -- the token is the last one of the lead, or there is another one whose mark counts
      cases lead with
      | nil => simp
      | cons u lead => simp
  | @group o c inside lead hgroup hinside hlead ih =>
      have h : f.StartsAt i (o :: (inside ++ c :: (lead ++ (ellipsis?.toList ++ v :: rest)))) := by
        simpa using h
      obtain ⟨last, hlast, hbehind⟩ := closer?_of_encloses htokens hstream h hgroup hinside
      obtain ⟨j, hnext, hj⟩ := exists_next? hbehind (by simp)
      have hopen : (f.token i).Encloses c := by rw [h.token_eq]; exact hgroup
      rw [parameterFrom_of_encloses hopen hlast hnext, ih hj]
      congr 2
      rw [← List.cons_append, List.getLast?_append_cons]
      cases lead with
      | nil => simp [hgroup.not_ampersand.2]
      | cons u lead => rw [List.getLast?_cons_cons]

end Form

end TokenStream

/-- **A parameter is read off its form.** In every file that can be parsed, take a place whose significant tokens start
    with a parameter: any number of attributes, parenthesised groups and tokens of types and modifiers, in any order,
    then an ellipsis or none, then a variable. Reading the parameter there gives the variable. It is variadic exactly if
    it has the ellipsis, and by reference exactly if the last token before the ellipsis, or before the variable where
    there is none, is an ampersand; no other ampersand is a mark. -/
theorem SourceFile.parameterAt_of_form {fileName source : String} {f : SourceFile}
    (h : ofSource fileName source = .ok f) (p : ParameterForm) {first : Nat} {rest : List Token}
    (hfirst : (f.token first).isTrivial = false) (hform : f.significantFrom first = p.tokens ++ rest) :
    f.parameterAt first = ⟨some p.var.index, p.lead.getLast?.any (Token.isChar · '&'), p.ellipsis?.isSome⟩ := by
  obtain ⟨tokens, htokens, hfile⟩ := ofSource_eq_ok h
  obtain ⟨hstream, _⟩ := ofTokens_eq_ok hfile
  have hform : f.significantFrom first = p.lead ++ (p.ellipsis?.toList ++ p.var :: rest) := by
    rw [hform, ParameterForm.tokens]
    simp
  have hlt : first < f.size := by
    apply TokenStream.lt_size_of_significantFrom
    rw [hform]
    simp
  rw [TokenStream.parameterAt, TokenStream.parameterFrom_of_lead_form htokens hstream p.lead_form p.ellipsis_kind
    p.var_kind ⟨hlt, hfirst, hform⟩, Bool.false_or, Bool.false_or]

/-- A parameter with an attribute, an intersection type in a group, and both marks. -/
def typedParameter : String :=
  "<?php function f(#[A] ?(B&C)|D &...$x) \x7b\x7d"

/-- The form of that parameter. -/
def typedForm : ParameterForm where
  lead := [
    ⟨.attributeOpen, "#[", 1, 5⟩, ⟨.name, "A", 1, 6⟩, ⟨.char ']', "]", 1, 7⟩, ⟨.char '?', "?", 1, 9⟩,
    ⟨.char '(', "(", 1, 10⟩, ⟨.name, "B", 1, 11⟩, ⟨.char '&', "&", 1, 12⟩, ⟨.name, "C", 1, 13⟩,
    ⟨.char ')', ")", 1, 14⟩, ⟨.char '|', "|", 1, 15⟩, ⟨.name, "D", 1, 16⟩, ⟨.char '&', "&", 1, 18⟩]
  ellipsis? := some ⟨.ellipsis, "...", 1, 19⟩
  var := ⟨.var, "$x", 1, 20⟩
  lead_form := by
    refine @ParameterLead.group _ _ [_] _ (.inl ⟨rfl, rfl⟩) .nil (.token rfl ?_)
    exact @ParameterLead.group _ _ [_, _, _] _ (.inr ⟨rfl, rfl⟩) .nil (.token rfl (.token rfl (.token rfl .nil)))
  ellipsis_kind := by
    rintro e ⟨⟩
    rfl
  var_kind := rfl

theorem typedParameter_run : ∃ f, SourceFile.ofSource "f.php" typedParameter = .ok f
    ∧ (f.token 5).isTrivial = false ∧ f.significantFrom 5 = typedForm.tokens ++ f.significantFrom 21 :=
  exists_ok_of_decide (by decide +kernel)

theorem typedParameter_read : ∃ f, SourceFile.ofSource "f.php" typedParameter = .ok f
    ∧ f.parameterAt 5 = ⟨some 20, true, true⟩ := by
  obtain ⟨f, hf, hfirst, hform⟩ := typedParameter_run
  exact ⟨f, hf, SourceFile.parameterAt_of_form hf typedForm hfirst hform⟩

end Unassigned
