import Unassigned.Proofs.Punctuation

/-!
# `Proofs.Brackets` — which sources have brackets that pair up

The brackets of a source are a word over three sorts of brackets. A source can be parsed only if that word is
**well nested** (`Balanced`), which is said without a stack: a well-nested word is empty, or a group with a
well-nested word inside and another one behind it.

The stack of `pairBrackets` is read off the tokens before a place: `OpenAfter before opened` cuts them at the
brackets that are still open, with well-nested words between. A token changes the stack in one of three ways,
and each keeps `OpenAfter`. The error of a source that is not well nested can then be told from the cut.
-/

namespace Unassigned

/-! ## Words of brackets -/

/-- The brackets that can close each other are of one sort. -/
inductive BracketSort where
  | round
  | square
  | curly
  deriving DecidableEq, Repr

/-- A bracket. -/
inductive Bracket where
  | opening (sort : BracketSort)
  | closing (sort : BracketSort)
  deriving DecidableEq, Repr

/-- A well-nested word. -/
inductive Balanced : List Bracket → Prop where
  | nil : Balanced []
  | group {inside after : List Bracket} (sort : BracketSort) : Balanced inside → Balanced after →
      Balanced (.opening sort :: (inside ++ .closing sort :: after))

/-- The word can be continued to a well-nested one: each of its closing brackets matches. -/
def Completable (word : List Bracket) : Prop :=
  ∃ more, Balanced (word ++ more)

/-- The word closes the brackets that are open before it, the innermost first, and all of its own. -/
def Closes (opened : List BracketSort) : List Bracket → Prop
  | [] => opened = []
  | .opening sort :: word => Closes (sort :: opened) word
  | .closing sort :: word => ∃ below, opened = sort :: below ∧ Closes below word

variable {word : List Bracket} {t : Token} {sort : BracketSort} {before opened : List Token}

theorem Balanced.append {word' : List Bracket} (h : Balanced word) (h' : Balanced word') :
    Balanced (word ++ word') := by
  induction h with
  | nil => exact h'
  | @group inside after sort hinside _ _ ih =>
      rw [List.cons_append, List.append_assoc, List.cons_append]
      exact .group sort hinside ih

/-- A group alone. -/
theorem Balanced.single {inside : List Bracket} (sort : BracketSort) (h : Balanced inside) :
    Balanced (.opening sort :: (inside ++ [.closing sort])) :=
  .group sort h .nil

/-- A well-nested word leaves open what was open. -/
theorem Balanced.closes_iff (h : Balanced word) (opened : List BracketSort) (rest : List Bracket) :
    Closes opened (word ++ rest) ↔ Closes opened rest := by
  induction h generalizing opened rest with
  | nil => exact Iff.rfl
  | @group inside after sort _ _ ihinside ihafter =>
      rw [List.cons_append, List.append_assoc, List.cons_append]
      show Closes (sort :: opened) _ ↔ _
      rw [ihinside]
      constructor
      · rintro ⟨below, hbelow, hrest⟩
        obtain rfl : opened = below := (List.cons.inj hbelow).2
        exact (ihafter opened rest).mp hrest
      · intro hrest
        exact ⟨opened, rfl, (ihafter opened rest).mpr hrest⟩

theorem Balanced.closes (h : Balanced word) : Closes [] word := by
  rw [← List.append_nil word]
  exact (h.closes_iff [] []).mpr rfl

/-! ## The brackets of a source -/

/-- The bracket that a text is. -/
def Bracket.ofText? : String → Option Bracket
  | "(" => some (.opening .round)
  | "[" => some (.opening .square)
  | "\x7b" => some (.opening .curly)
  | ")" => some (.closing .round)
  | "]" => some (.closing .square)
  | "\x7d" => some (.closing .curly)
  | _ => none

/-- The bracket that a token is: a single character by its text, the opening brackets of attributes and of
    interpolated expressions by their kind. -/
def Token.bracket? (t : Token) : Option Bracket :=
  match t.kind with
  | .char _ => Bracket.ofText? t.text
  | .curlyOpen => some (.opening .curly)
  | .dollarCurlyOpen => some (.opening .curly)
  | .attributeOpen => some (.opening .square)
  | _ => none

/-- The word of the brackets among some tokens. -/
def bracketWord (tokens : List Token) : List Bracket :=
  tokens.filterMap Token.bracket?

@[simp] theorem bracketWord_append (tokens more : List Token) :
    bracketWord (tokens ++ more) = bracketWord tokens ++ bracketWord more :=
  List.filterMap_append

theorem bracketWord_cons_of_some {b : Bracket} (h : t.bracket? = some b) (tokens : List Token) :
    bracketWord (t :: tokens) = b :: bracketWord tokens :=
  List.filterMap_cons_some h

theorem bracketWord_single_of_none (h : t.bracket? = none) : bracketWord [t] = [] :=
  List.filterMap_cons_none h

/-- The character of the closing brackets of a sort. -/
def BracketSort.closer : BracketSort → Char
  | .round => ')'
  | .square => ']'
  | .curly => '\x7d'

theorem BracketSort.closer_inj {sort' : BracketSort} (h : sort.closer = sort'.closer) : sort = sort' := by
  revert h
  cases sort <;> cases sort' <;> decide

/-- No other character is a bracket. -/
theorem not_bracket_of_notMem {c : Char} (hc : c ∉ ['(', '[', '\x7b', ')', ']', '\x7d']) :
    Bracket.ofText? (String.ofList [c]) = none ∧ (Kind.char c).closer? = none ∧ (Kind.char c).closing? = none := by
  have htext : ∀ d, String.ofList [c] = String.ofList [d] → c = d := by
    intro d h
    simpa using congrArg String.toList h
  simp only [List.mem_cons, List.not_mem_nil, or_false, not_or] at hc
  obtain ⟨hround, hsquare, hcurly, hround', hsquare', hcurly'⟩ := hc
  refine ⟨?_, ?_, ?_⟩
  · unfold Bracket.ofText?
    split
    · next h => exact absurd (htext _ h) hround
    · next h => exact absurd (htext _ h) hsquare
    · next h => exact absurd (htext _ h) hcurly
    · next h => exact absurd (htext _ h) hround'
    · next h => exact absurd (htext _ h) hsquare'
    · next h => exact absurd (htext _ h) hcurly'
    · rfl
  · unfold Kind.closer?
    split <;> simp_all
  · unfold Kind.closing?
    split <;> simp_all

/-- **Text and kind of a token agree on the bracket that it is.** -/
theorem Token.Spelled.bracket_cases (h : t.Spelled) :
    (∃ sort, t.bracket? = some (.opening sort) ∧ t.kind.closer? = some sort.closer)
    ∨ (∃ sort, t.bracket? = some (.closing sort) ∧ t.kind.closer? = none ∧ t.kind.closing? = some sort.closer)
    ∨ (t.bracket? = none ∧ t.kind.closer? = none ∧ t.kind.closing? = none) := by
  unfold Token.bracket?
  cases hkind : t.kind with
  | curlyOpen | dollarCurlyOpen => exact .inl ⟨.curly, rfl, rfl⟩
  | attributeOpen => exact .inl ⟨.square, rfl, rfl⟩
  | char c =>
      have htext : t.text = String.ofList [c] := h [c] (by rw [hkind]; rfl)
      dsimp only
      rw [htext]
      by_cases hc : c ∈ ['(', '[', '\x7b', ')', ']', '\x7d']
      · simp only [List.mem_cons, List.not_mem_nil, or_false] at hc
        rcases hc with rfl | rfl | rfl | rfl | rfl | rfl
        · exact .inl ⟨.round, by decide, rfl⟩
        · exact .inl ⟨.square, by decide, rfl⟩
        · exact .inl ⟨.curly, by decide, rfl⟩
        · exact .inr (.inl ⟨.round, by decide, rfl, rfl⟩)
        · exact .inr (.inl ⟨.square, by decide, rfl, rfl⟩)
        · exact .inr (.inl ⟨.curly, by decide, rfl, rfl⟩)
      · exact .inr (.inr (not_bracket_of_notMem hc))
  | _ => exact .inr (.inr ⟨rfl, rfl, rfl⟩)

/-- An opening bracket. -/
theorem Token.Spelled.opening {t : Token} (h : t.Spelled) {c : Char} (hc : t.kind.closer? = some c) :
    ∃ sort, t.bracket? = some (.opening sort) ∧ c = sort.closer := by
  rcases h.bracket_cases with ⟨sort, hsort, hcloser⟩ | ⟨_, _, hcloser, _⟩ | ⟨_, hcloser, _⟩
  · exact ⟨sort, hsort, Option.some.inj (hc.symm.trans hcloser)⟩
  · cases hc.symm.trans hcloser
  · cases hc.symm.trans hcloser

theorem Token.Spelled.closer?_of_opening (h : t.Spelled) (hsort : t.bracket? = some (.opening sort)) :
    t.kind.closer? = some sort.closer := by
  rcases h.bracket_cases with ⟨sort', hsort', hcloser⟩ | ⟨_, hclosing, _⟩ | ⟨hnone, _⟩
  · cases hsort.symm.trans hsort'
    exact hcloser
  · cases hsort.symm.trans hclosing
  · cases hsort.symm.trans hnone

theorem Token.Spelled.closing {t : Token} (h : t.Spelled) {c : Char} (hopen : t.kind.closer? = none)
    (hc : t.kind.closing? = some c) : ∃ sort, t.bracket? = some (.closing sort) ∧ c = sort.closer := by
  rcases h.bracket_cases with ⟨_, _, hcloser⟩ | ⟨sort, hsort, _, hclosing⟩ | ⟨_, _, hclosing⟩
  · cases hopen.symm.trans hcloser
  · exact ⟨sort, hsort, Option.some.inj (hc.symm.trans hclosing)⟩
  · cases hc.symm.trans hclosing

theorem Token.Spelled.other (h : t.Spelled) (hopen : t.kind.closer? = none) (hclose : t.kind.closing? = none) :
    t.bracket? = none := by
  rcases h.bracket_cases with ⟨_, _, hcloser⟩ | ⟨_, _, _, hclosing⟩ | ⟨hnone, _⟩
  · cases hopen.symm.trans hcloser
  · cases hclose.symm.trans hclosing
  · exact hnone

/-! ## The brackets that are open -/

/-- Behind the tokens `before` the brackets `opened` are open, the innermost first. -/
inductive OpenAfter : List Token → List Token → Prop where
  | nothing {before : List Token} : Balanced (bracketWord before) → OpenAfter before []
  | bracket {before inside opened : List Token} {o : Token} {sort : BracketSort} : OpenAfter before opened →
      o.bracket? = some (.opening sort) → Balanced (bracketWord inside) →
      OpenAfter (before ++ o :: inside) (o :: opened)

namespace OpenAfter

variable {before opened : List Token} {o t : Token} {sort : BracketSort}

/-- Well-nested brackets change nothing. -/
theorem append (h : OpenAfter before opened) {more : List Token} (hmore : Balanced (bracketWord more)) :
    OpenAfter (before ++ more) opened := by
  cases h with
  | nothing hbefore =>
      apply OpenAfter.nothing
      rw [bracketWord_append]
      exact hbefore.append hmore
  | bracket hbefore ho hinside =>
      rw [List.append_assoc, List.cons_append]
      apply hbefore.bracket ho
      rw [bracketWord_append]
      exact hinside.append hmore

theorem push (h : OpenAfter before opened) (ht : t.bracket? = some (.opening sort)) :
    OpenAfter (before ++ [t]) (t :: opened) :=
  h.bracket ht .nil

theorem skip (h : OpenAfter before opened) (ht : t.bracket? = none) : OpenAfter (before ++ [t]) opened := by
  apply h.append
  rw [bracketWord_single_of_none ht]
  exact .nil

/-- A closing bracket makes a group of what stands behind the innermost open one. -/
theorem pop (h : OpenAfter before (o :: opened)) (ho : o.bracket? = some (.opening sort))
    (ht : t.bracket? = some (.closing sort)) : OpenAfter (before ++ [t]) opened := by
  cases h with
  | @bracket before inside _ _ _ hbefore _ hinside =>
      rw [List.append_assoc, List.cons_append]
      apply hbefore.append
      rw [bracketWord_cons_of_some ho, bracketWord_append, bracketWord_cons_of_some ht]
      exact hinside.single sort

/-- What is open can be closed, whatever well-nested word comes before that. -/
theorem exists_closers (h : OpenAfter before opened) :
    ∃ closers, ∀ word, Balanced word → Balanced (bracketWord before ++ (word ++ closers)) := by
  induction h with
  | nothing hbefore =>
      refine ⟨[], fun word hword => ?_⟩
      rw [List.append_nil]
      exact hbefore.append hword
  | @bracket before inside opened o sort _ ho hinside ih =>
      obtain ⟨closers, hclosers⟩ := ih
      refine ⟨.closing sort :: closers, fun word hword => ?_⟩
      -- the innermost group is a well-nested word behind the brackets further out
      have hgroup := hclosers _ ((hinside.append hword).single sort)
      rw [bracketWord_append, bracketWord_cons_of_some ho]
      simpa using hgroup

theorem completable (h : OpenAfter before opened) : Completable (bracketWord before) := by
  obtain ⟨closers, hclosers⟩ := h.exists_closers
  exact ⟨closers, hclosers [] .nil⟩

/-- A word goes on behind `before` as one that closes what is open there. -/
theorem closes_iff (h : OpenAfter before opened) :
    ∃ sorts, List.Forall₂ (fun o sort => o.bracket? = some (.opening sort)) opened sorts
      ∧ ∀ rest, Closes [] (bracketWord before ++ rest) ↔ Closes sorts rest := by
  induction h with
  | nothing hbefore => exact ⟨[], .nil, fun rest => hbefore.closes_iff [] rest⟩
  | @bracket before inside opened o sort _ ho hinside ih =>
      obtain ⟨sorts, hsorts, hcloses⟩ := ih
      refine ⟨sort :: sorts, .cons ho hsorts, fun rest => ?_⟩
      rw [bracketWord_append, bracketWord_cons_of_some ho, List.append_assoc, hcloses, List.cons_append]
      exact hinside.closes_iff (sort :: sorts) rest

/-- A closing bracket behind `before` belongs to the innermost open one. -/
theorem innermost_of_completable (h : OpenAfter before opened) (ht : t.bracket? = some (.closing sort))
    (hcompletable : Completable (bracketWord (before ++ [t]))) :
    ∃ o below, opened = o :: below ∧ o.bracket? = some (.opening sort) := by
  obtain ⟨sorts, hsorts, hcloses⟩ := h.closes_iff
  obtain ⟨more, hmore⟩ := hcompletable
  rw [bracketWord_append, bracketWord_cons_of_some ht, List.append_assoc] at hmore
  obtain ⟨below, rfl, _⟩ := (hcloses _).mp hmore.closes
  cases hsorts with
  | cons ho _ => exact ⟨_, _, rfl, ho⟩

theorem eq_nil_of_balanced (h : OpenAfter before opened) (hbalanced : Balanced (bracketWord before)) :
    opened = [] := by
  obtain ⟨sorts, hsorts, hcloses⟩ := h.closes_iff
  have hnil : sorts = [] := (hcloses []).mp (by rw [List.append_nil]; exact hbalanced.closes)
  subst hnil
  cases hsorts
  rfl

end OpenAfter

/-! ## The error of a source -/

/-- `t` is the first closing bracket that cannot be matched, and `before` are the tokens before it. -/
structure FirstUnmatched (tokens before : List Token) (t : Token) : Prop where
  place : ∃ after, tokens = before ++ t :: after
  closing : ∃ sort, t.bracket? = some (.closing sort)
  completable : Completable (bracketWord before)
  unmatched : ¬ Completable (bracketWord (before ++ [t]))

/-- `o` is the innermost bracket that is open behind the tokens. -/
def InnermostOpen (tokens : List Token) (o : Token) : Prop :=
  ∃ before inside sort, tokens = before ++ o :: inside ∧ o.bracket? = some (.opening sort)
    ∧ Balanced (bracketWord inside)

/-- **What is wrong with the brackets** of some tokens. -/
inductive BracketFault (tokens : List Token) : ParseError → Prop where
  /-- A closing bracket where none is open. -/
  | unmatched {before : List Token} {t : Token} : FirstUnmatched tokens before t →
      Balanced (bracketWord before) → BracketFault tokens (.unmatched t)
  /-- A closing bracket where one of another sort is open. -/
  | mismatched {before : List Token} {t o : Token} : FirstUnmatched tokens before t → InnermostOpen before o →
      BracketFault tokens (.mismatched t o)
  /-- Every closing bracket matches, but some bracket stays open. -/
  | unclosed {o : Token} : Completable (bracketWord tokens) → InnermostOpen tokens o →
      BracketFault tokens (.unclosed o)

theorem OpenAfter.innermostOpen {o : Token} (h : OpenAfter before (o :: opened)) : InnermostOpen before o := by
  cases h with
  | bracket _ ho hinside => exact ⟨_, _, _, rfl, ho, hinside⟩

theorem OpenAfter.mem {o : Token} (h : OpenAfter before (o :: opened)) : o ∈ before := by
  obtain ⟨_, _, _, rfl, _, _⟩ := h.innermostOpen
  simp

/-- A closing bracket that belongs to none is the first such one, since the brackets before it match. -/
theorem OpenAfter.firstUnmatched {after : List Token} (h : OpenAfter before opened)
    (ht : t.bracket? = some (.closing sort))
    (hopened : ∀ o below, opened = o :: below → o.bracket? ≠ some (.opening sort)) :
    FirstUnmatched (before ++ t :: after) before t := by
  refine ⟨⟨after, rfl⟩, ⟨sort, ht⟩, h.completable, fun hcompletable => ?_⟩
  obtain ⟨o, below, hbelow, ho⟩ := h.innermost_of_completable ht hcompletable
  exact hopened o below hbelow ho

/-- The brackets pair up if they are well nested, and otherwise the error says what is wrong with them. -/
def Judges (tokens : List Token) : Except ParseError (List (Nat × Nat)) → Prop
  | .ok _ => Balanced (bracketWord tokens)
  | .error e => BracketFault tokens e ∧ ¬ Balanced (bracketWord tokens)

theorem Judges.map {tokens : List Token} {result : Except ParseError (List (Nat × Nat))} (h : Judges tokens result)
    (f : List (Nat × Nat) → List (Nat × Nat)) : Judges tokens (result.map f) := by
  cases result with
  | ok pairs => exact h
  | error e => exact h

theorem FirstUnmatched.not_balanced {tokens : List Token} (h : FirstUnmatched tokens before t) :
    ¬ Balanced (bracketWord tokens) := by
  obtain ⟨after, rfl⟩ := h.place
  intro hbalanced
  apply h.unmatched
  refine ⟨bracketWord after, ?_⟩
  rw [← bracketWord_append, List.append_assoc]
  exact hbalanced

/-- **The run of `pairBrackets`,** from a place where `opened` is open. -/
theorem pairBrackets_judges {rest : List Token} (hspelled : ∀ t ∈ before ++ rest, t.Spelled)
    (h : OpenAfter before opened) : Judges (before ++ rest) (pairBrackets opened rest) := by
  fun_induction pairBrackets opened rest generalizing before with
  | case1 =>
      rw [List.append_nil]
      cases h with
      | nothing hbefore => exact hbefore
  | case2 o below =>
      rw [List.append_nil]
      refine ⟨.unclosed h.completable h.innermostOpen, fun hbalanced => ?_⟩
      cases h.eq_nil_of_balanced hbalanced
  | case3 opened t rest c hopen ih =>
      obtain ⟨sort, hsort, _⟩ := (hspelled t (by simp)).opening hopen
      rw [List.append_cons] at hspelled ⊢
      exact ih hspelled (h.push hsort)
  | case4 t rest c hclose hopen =>
      obtain ⟨sort, hsort, _⟩ := (hspelled t (by simp)).closing hopen hclose
      have hfirst : FirstUnmatched (before ++ t :: rest) before t := h.firstUnmatched hsort nofun
      cases h with
      | nothing hbefore => exact ⟨.unmatched hfirst hbefore, hfirst.not_balanced⟩
  | case5 t rest c hclose hopen o below hsame ih =>
      obtain ⟨sort, hsort, hc⟩ := (hspelled t (by simp)).closing hopen hclose
      -- the innermost open bracket closes with the same character, so it is of the same sort
      obtain ⟨sort', hsort', hc'⟩ := (hspelled o (by simp [h.mem])).opening hsame
      obtain rfl : sort = sort' := BracketSort.closer_inj (hc.symm.trans hc')
      rw [List.append_cons] at hspelled ⊢
      exact (ih hspelled (h.pop hsort' hsort)).map _
  | case6 t rest c hclose hopen o below hother =>
      obtain ⟨sort, hsort, hc⟩ := (hspelled t (by simp)).closing hopen hclose
      have hfirst : FirstUnmatched (before ++ t :: rest) before t := by
        apply h.firstUnmatched hsort
        rintro o' below' ⟨⟩ ho
        rw [hc] at hother
        exact hother ((hspelled o (by simp [h.mem])).closer?_of_opening ho)
      exact ⟨.mismatched hfirst h.innermostOpen, hfirst.not_balanced⟩
  | case7 opened t rest hclose hopen ih =>
      have hnone := (hspelled t (by simp)).other hopen hclose
      rw [List.append_cons] at hspelled ⊢
      exact ih hspelled (h.skip hnone)

/-! ## Partners -/

namespace TokenStream

/-- **The partners in a stream** match its brackets. -/
structure PairsBrackets (f : TokenStream) : Prop where
  /-- Exactly the brackets have partners. -/
  domain : ∀ i, (f.partner? i).isSome ↔ (f.token i).bracket?.isSome
  symm : ∀ i j, f.partner? i = some j → f.partner? j = some i
  irrefl : ∀ i, f.partner? i ≠ some i
  /-- An opening bracket has a closing one of its sort further on. -/
  opens : ∀ i sort, (f.token i).bracket? = some (.opening sort) →
    ∃ j, f.partner? i = some j ∧ i < j ∧ (f.token j).bracket? = some (.closing sort)
  /-- Two groups are disjoint, or one is inside the other. -/
  nested : ∀ i j k l, f.partner? i = some k → f.partner? j = some l → i < k → j < l → i < j → k < j ∨ l < k

variable {tokens : List Token} {pairs : List (Nat × Nat)}

/-- The brackets of a pair are of one sort. -/
theorem sorts_of_mem (hspelled : ∀ t ∈ tokens, t.Spelled) (hnumbered : NumberedFrom 0 tokens)
    (hpairs : pairBrackets [] tokens = .ok pairs) (partners : Array (Option Nat)) {p : Nat × Nat} (hp : p ∈ pairs) :
    ∃ sort, ((mk tokens.toArray partners).token p.1).bracket? = some (.opening sort)
      ∧ ((mk tokens.toArray partners).token p.2).bracket? = some (.closing sort) := by
  obtain ⟨o, c, ho, hoi, hc, hci, hopen, hclosing, hsame⟩ := sorts_of_pairBrackets hpairs hp
  have ho : o ∈ tokens := ho.resolve_left (by simp)
  obtain ⟨d, hd⟩ := Option.isSome_iff_exists.mp hclosing
  obtain ⟨sort, hsort, hcloser⟩ := (hspelled o ho).opening (hsame.trans hd)
  obtain ⟨sort', hsort', hcloser'⟩ := (hspelled c hc).closing hopen hd
  obtain rfl : sort = sort' := BracketSort.closer_inj (hcloser.symm.trans hcloser')
  rw [← hoi, ← hci, token_eq (hnumbered.getElem?_index ho), token_eq (hnumbered.getElem?_index hc)]
  exact ⟨sort, hsort, hsort'⟩

/-- Every bracket is in a pair. -/
theorem exists_pair_of_bracket (hspelled : ∀ t ∈ tokens, t.Spelled) (hpairs : pairBrackets [] tokens = .ok pairs)
    {t : Token} (ht : t ∈ tokens) (hbracket : t.bracket?.isSome) :
    ∃ p ∈ pairs, p.1 = t.index ∨ p.2 = t.index := by
  rcases (hspelled t ht).bracket_cases with ⟨_, _, hcloser⟩ | ⟨_, _, hopen, hclosing⟩ | ⟨hnone, _⟩
  · obtain ⟨p, hp, hindex⟩ := exists_pair_of_opener hpairs (.inr ⟨ht, Option.isSome_of_eq_some hcloser⟩)
    exact ⟨p, hp, .inl hindex⟩
  · obtain ⟨p, hp, hindex⟩ := exists_pair_of_closer hpairs ht hopen (Option.isSome_of_eq_some hclosing)
    exact ⟨p, hp, .inr hindex⟩
  · rw [hnone] at hbracket
    cases hbracket

theorem isSome_partner?_iff (hspelled : ∀ t ∈ tokens, t.Spelled) (hnumbered : NumberedFrom 0 tokens)
    (hpairs : pairBrackets [] tokens = .ok pairs) (i : Nat) :
    ((mk tokens.toArray (partnerTable tokens.length pairs)).partner? i).isSome
      ↔ ((mk tokens.toArray (partnerTable tokens.length pairs)).token i).bracket?.isSome := by
  have hpartner : ∀ {i k : Nat}, _ ↔ (i, k) ∈ pairs ∨ (k, i) ∈ pairs := partner?_iff_mem hnumbered hpairs
  constructor
  · intro hsome
    obtain ⟨k, hk⟩ := Option.isSome_iff_exists.mp hsome
    rcases hpartner.mp hk with hmem | hmem
    · obtain ⟨sort, hopening, _⟩ := sorts_of_mem hspelled hnumbered hpairs _ hmem
      exact Option.isSome_of_eq_some hopening
    · obtain ⟨sort, _, hclosing⟩ := sorts_of_mem hspelled hnumbered hpairs _ hmem
      exact Option.isSome_of_eq_some hclosing
  · intro hsome
    cases hat : tokens[i]? with
    | none => simp [token, hat, Token.bracket?] at hsome
    | some t =>
        rw [token_eq hat] at hsome
        obtain ⟨⟨o, c⟩, hp, hindex⟩ :=
          exists_pair_of_bracket hspelled hpairs (List.mem_of_getElem? hat) hsome
        rw [hnumbered i t hat, Nat.zero_add] at hindex
        rcases hindex with rfl | rfl
        · exact Option.isSome_of_eq_some (hpartner.mpr (.inl hp))
        · exact Option.isSome_of_eq_some (hpartner.mpr (.inr hp))

theorem pairsBrackets_of_ofTokens {f : TokenStream} (hspelled : ∀ t ∈ tokens, t.Spelled)
    (hnumbered : NumberedFrom 0 tokens) (h : ofTokens tokens = .ok f) : f.PairsBrackets := by
  obtain ⟨pairs, hpairs, rfl⟩ := ofTokens_eq_ok h
  have hnested := nestedPairs_of_pairBrackets hnumbered ⟨by simp, .nil⟩ hpairs
  have hpartner : ∀ {i k : Nat}, _ ↔ (i, k) ∈ pairs ∨ (k, i) ∈ pairs := partner?_iff_mem hnumbered hpairs
  refine ⟨isSome_partner?_iff hspelled hnumbered hpairs, ?_, ?_, ?_, ?_⟩
  · intro i j hj
    exact hpartner.mpr (hpartner.mp hj).symm
  · intro i hi
    rcases hpartner.mp hi with hmem | hmem
    · exact Nat.lt_irrefl i (hnested.lt _ hmem)
    · exact Nat.lt_irrefl i (hnested.lt _ hmem)
  · intro i sort hsort
    obtain ⟨k, hk⟩ := Option.isSome_iff_exists.mp
      ((isSome_partner?_iff hspelled hnumbered hpairs i).mpr (Option.isSome_of_eq_some hsort))
    rcases hpartner.mp hk with hmem | hmem
    · obtain ⟨sort', hopening, hclosing⟩ := sorts_of_mem hspelled hnumbered hpairs _ hmem
      cases hsort.symm.trans hopening
      exact ⟨k, hk, hnested.lt _ hmem, hclosing⟩
    · -- a closing bracket is no opening one
      obtain ⟨_, _, hclosing⟩ := sorts_of_mem hspelled hnumbered hpairs _ hmem
      cases hsort.symm.trans hclosing
  · intro i j k l hk hl hik hjl hij
    have hik := (closer?_iff_mem hnumbered hpairs).mp (closer?_eq_some.mpr ⟨hk, hik⟩)
    have hjl := (closer?_iff_mem hnumbered hpairs).mp (closer?_eq_some.mpr ⟨hl, hjl⟩)
    have hne : j ≠ k := ne_of_pairBrackets hnumbered hpairs hjl hik
    by_cases hjk : j < k
    · exact .inr (hnested.nested _ hik _ hjl hij hjk)
    · exact .inl (by omega)

theorem ofTokens_judges (hspelled : ∀ t ∈ tokens, t.Spelled) :
    ((∃ f, ofTokens tokens = .ok f) ∧ Balanced (bracketWord tokens))
    ∨ (∃ e, ofTokens tokens = .error e ∧ BracketFault tokens e ∧ ¬ Balanced (bracketWord tokens)) := by
  have hjudges := @pairBrackets_judges [] [] tokens hspelled (.nothing .nil)
  unfold ofTokens
  rw [List.nil_append] at hjudges
  cases hpairs : pairBrackets [] tokens with
  | ok pairs =>
      rw [hpairs] at hjudges
      exact .inl ⟨⟨_, rfl⟩, hjudges⟩
  | error e =>
      rw [hpairs] at hjudges
      exact .inr ⟨e, rfl, hjudges⟩

/-- **Brackets pair up exactly if they are well nested.** The tokens of a source make a stream exactly if the word
    of their brackets is well nested, and then the partners match the brackets. Otherwise the error names the first
    closing bracket that cannot be matched or, if they all can, the innermost bracket that stays open. It makes no
    difference whether brackets are told by their kinds or by their texts. -/
theorem brackets_pair_iff_balanced {source : String} {tokens : List Token} (h : tokenize source = .ok tokens) :
    ((∃ f, ofTokens tokens = .ok f) ↔ Balanced (bracketWord tokens))
    ∧ (∀ f, ofTokens tokens = .ok f → f.tokens = tokens.toArray ∧ f.PairsBrackets)
    ∧ (∀ e, ofTokens tokens = .error e → BracketFault tokens e)
    ∧ (∀ t ∈ tokens, t.Spelled) := by
  have hspelled := tokenize_spelled h
  refine ⟨?_, ?_, ?_, hspelled⟩
  · rcases ofTokens_judges hspelled with ⟨hok, hbalanced⟩ | ⟨e, he, _, hnot⟩
    · exact iff_of_true hok hbalanced
    · refine iff_of_false ?_ hnot
      rintro ⟨f, hf⟩
      cases he.symm.trans hf
  · intro f hf
    refine ⟨?_, pairsBrackets_of_ofTokens hspelled (tokenize_numbered h) hf⟩
    obtain ⟨pairs, _, rfl⟩ := ofTokens_eq_ok hf
    rfl
  · intro e he
    rcases ofTokens_judges hspelled with ⟨⟨f, hf⟩, _⟩ | ⟨e', he', hfault, _⟩
    · cases hf.symm.trans he
    · cases he'.symm.trans he
      exact hfault

/-- A source with all sorts of brackets. -/
def manyBrackets : String :=
  "<?php #[A] function f() \x7b echo \"\x7b$a[0]\x7d $\x7bb\x7d\"; \x7d"

/-- The word of the brackets in that source. -/
def manyBracketsWord : List Bracket := [
  .opening .square, .closing .square, .opening .round, .closing .round, .opening .curly,
  .opening .curly, .opening .square, .closing .square, .closing .curly, .opening .curly, .closing .curly,
  .closing .curly]

theorem manyBrackets_run : (tokenize manyBrackets).toOption.any fun tokens =>
    bracketWord tokens = manyBracketsWord && (ofTokens tokens matches .ok _) := by
  decide +kernel

theorem manyBrackets_pair : ∃ tokens f, tokenize manyBrackets = .ok tokens
    ∧ bracketWord tokens = manyBracketsWord ∧ Balanced manyBracketsWord
    ∧ ofTokens tokens = .ok f ∧ f.PairsBrackets := by
  obtain ⟨tokens, htokens, hrun⟩ := exists_ok_of_any manyBrackets_run
  obtain ⟨hword, hstream⟩ := Bool.and_eq_true_iff.mp hrun
  have hword := of_decide_eq_true hword
  obtain ⟨hbalanced, hpairs, _⟩ := brackets_pair_iff_balanced htokens
  split at hstream
  · next f hf => exact ⟨tokens, f, htokens, hword, hword ▸ hbalanced.mp ⟨f, hf⟩, hf, (hpairs f hf).2⟩
  · cases hstream

end TokenStream

end Unassigned
