import Unassigned.Proofs.LexemeOrigins

/-!
# `Proofs.KeywordContext` — a word is a keyword or a name by what stands before it

Whether a word is a keyword is decided while the tokens are numbered, from the kinds of the last two significant tokens
(`Preceding`). These are the kinds of the two tokens that stand before the word in the finished list
(`Token.map_ofLexemes`), so the tokens alone tell why a word is a name: it is a member, or the name of a function, with
or without an ampersand (`NamesFollow`).

One word does not go this way. In a string, the word in a simple index `$a[list]` is a name from the start. Such names
are told by where they come from: a scanner of a string read the index (`IndexName`).
-/

namespace Unassigned

/-! ## The significant tokens before a place -/

/-- The significant tokens before a place, the last one first. -/
def significantBefore (tokens : List Token) (i : Nat) : List Token :=
  ((tokens.take i).filter fun t => !t.isTrivial).reverse

/-- **What makes a name of a word**: these significant tokens stand before it, the last one first. -/
inductive NamesFollow : List Token → Prop where
  /-- One of the operators `->`, `?->` and `::`, so that the word is a member. -/
  | member {t : Token} {earlier : List Token} : t.kind ∈ [Kind.arrow, .nullsafeArrow, .doubleColon] →
      NamesFollow (t :: earlier)
  | functionName {t : Token} {earlier : List Token} : t.kind = .keyword .functionWord → NamesFollow (t :: earlier)
  /-- The name of a function that returns a reference. -/
  | referenceName {t u : Token} {earlier : List Token} : t.kind = .char '&' → u.kind = .keyword .functionWord →
      NamesFollow (t :: u :: earlier)

/-- The kinds of the last two of some tokens, the last one first. -/
def Preceding.ofTokens (earlier : List Token) : Preceding :=
  ⟨earlier.head?.map Token.kind, earlier.tail.head?.map Token.kind⟩

/-- A token that comes next, if it is significant. -/
theorem Preceding.push_ofTokens (t : Token) (earlier : List Token) :
    (ofTokens earlier).push t.kind = ofTokens ((if t.isTrivial then [] else [t]) ++ earlier) := by
  unfold push
  show (if t.isTrivial then _ else _) = _
  split <;> rfl

theorem Preceding.namesHere_ofTokens (earlier : List Token) :
    (ofTokens earlier).namesHere ↔ NamesFollow earlier := by
  have hmember : ∀ kind : Kind, kind.isMemberAccess ↔ kind ∈ [Kind.arrow, .nullsafeArrow, .doubleColon] := by
    intro kind
    cases kind <;> simp [Kind.isMemberAccess]
  unfold namesHere ofTokens
  constructor
  · intro h
    rcases earlier with _ | ⟨t, earlier⟩
    · cases h
    · simp only [List.head?_cons, List.tail_cons, Option.map_some, Option.any_some, Bool.or_eq_true,
        Bool.and_eq_true, beq_iff_eq, Option.some.injEq, Option.map_eq_some_iff] at h
      rcases h with (h | h) | ⟨hamp, u, hu, hfunction⟩
      · exact .member ((hmember _).mp h)
      · exact .functionName h
      · obtain ⟨earlier, rfl⟩ := List.head?_eq_some_iff.mp hu
        exact .referenceName hamp hfunction
  · intro h
    cases h with
    | member h => simp [(hmember _).mpr h]
    | functionName h => simp [h]
    | referenceName hamp hfunction => simp [hamp, hfunction]

theorem significantBefore_cons (t : Token) (tokens : List Token) (i : Nat) :
    significantBefore (t :: tokens) (i + 1) = significantBefore tokens i ++ if t.isTrivial then [] else [t] := by
  unfold significantBefore
  rw [List.take_succ_cons, List.filter_cons]
  cases t.isTrivial <;> simp

/-- **Tokens and lexemes agree place by place**: the token has the text of the lexeme, and the kind that the significant
    tokens before it give to the lexeme. -/
theorem Token.map_ofLexemes (lexemes : List Lexeme) (earlier : List Token) (line index i : Nat) :
    ((ofLexemes (.ofTokens earlier) line index lexemes)[i]?).map (fun t => (t.kind, t.text))
      = lexemes[i]?.map fun lexeme => (lexeme.kind (.ofTokens
          (significantBefore (ofLexemes (.ofTokens earlier) line index lexemes) i ++ earlier)),
          String.ofList lexeme.text) := by
  induction lexemes generalizing earlier line index i with
  | nil => rfl
  | cons lexeme lexemes ih =>
      cases i with
      | zero => rfl
      | succ i =>
          rw [ofLexemes]
          generalize hfirst : Token.mk (lexeme.kind (.ofTokens earlier)) (String.ofList lexeme.text) line index = t
          have hkind : lexeme.kind (.ofTokens earlier) = t.kind := by rw [← hfirst]
          rw [hkind, Preceding.push_ofTokens, List.getElem?_cons_succ, List.getElem?_cons_succ,
            significantBefore_cons, List.append_assoc]
          exact ih _ _ _ i

/-! ## Names in simple indexes -/

/-- **The token at a place is the name in a simple index**: a scanner of a string, which the scan of the source leads
    to, stands at `$variable[name]`, and the tokens around the place are those four. -/
def IndexName (source : String) (tokens : List Token) (i : Nat) : Prop :=
  ∃ stop read text x name rest j, IsName x ∧ IsName name
    ∧ (Call.file [] source.toList).Leads (.string stop read text ('$' :: (x ++ '[' :: (name ++ ']' :: rest))))
    ∧ i = j + 2
    ∧ ∀ k < 4, tokens[j + k]?.map (fun t => (t.kind, t.text))
        = [(.var, String.ofList ('$' :: x)), (.char '[', "["), (.name, String.ofList name), (.char ']', "]")][k]?

theorem isName_of_append_bracket {x rest : List Char} (hx : ∀ c ∈ x, isNameChar c)
    (h : startsIn isNameStart (x ++ '[' :: rest)) : IsName x := by
  cases x with
  | nil => exact absurd h (by show ¬ isNameStart '['; decide)
  | cons c x => exact ⟨h, hx⟩

/-- A scanner has settled that this is a name or a keyword. -/
def Shape.isSettledWord : Shape → Bool
  | .of .name | .of (.keyword _) => true
  | _ => false

theorem Shape.not_isSettledWord_of_read {c : Char} {s : List Char} {shape : Shape} {more : Nat}
    (h : Item.read c s = .lexeme shape more) : ¬ shape.isSettledWord := by
  intro hword
  unfold isSettledWord at hword
  split at hword
  · cases Item.isOfItem_of_read h
  · cases Item.isOfItem_of_read h
  · cases hword

/-- **A scanner that settles a word reads a string and takes it for a name**: the name is a property, or it is the one
    in a simple index. -/
theorem Call.Emits.name {a : Call} {before own : List Lexeme} (h : a.Emits before own) {k : Nat} {lexeme : Lexeme}
    (hk : own[k]? = some lexeme) (hword : lexeme.shape.isSettledWord) :
    lexeme.shape = .of .name
    ∧ ((∃ m operator, k = m + 1 ∧ own[m]? = some operator
          ∧ operator.shape ∈ [Shape.of .arrow, .of .nullsafeArrow])
        ∨ ∃ stop read text x name rest, IsName x ∧ IsName name
          ∧ a = .string stop read text ('$' :: (x ++ '[' :: (name ++ ']' :: rest))) ∧ k = 2
          ∧ own = [⟨.of .var, '$' :: x⟩, charLexeme '[', ⟨.of .name, name⟩, charLexeme ']']) := by
  have hmem := List.mem_of_getElem? hk
  cases h with
  | @simple stop read text s hstart =>
      have hform := simpleInterpolation_form s
      generalize (simpleInterpolation s).1 = own at hform hk hmem ⊢
      cases hform with
      | @indexedByName x name rest hx hname =>
          rcases k with _ | _ | _ | _ | k
          · cases hk
            cases hword
          · cases hk
            cases hword
          · cases hk
            exact ⟨rfl, .inr ⟨stop, read, text, x, name, rest, isName_of_append_bracket hx hstart, hname, rfl, rfl,
              rfl⟩⟩
          · cases hk
            cases hword
          · cases hk
      | @property _ x operator name kind hx hkind =>
          rcases k with _ | _ | _ | k
          · cases hk
            cases hword
          · cases hk
            rcases List.mem_pair.mp hkind with rfl | rfl <;> cases hword
          · cases hk
            refine ⟨rfl, .inl ⟨1, _, rfl, rfl, ?_⟩⟩
            rcases List.mem_pair.mp hkind with rfl | rfl <;> simp
          · cases hk
      | indexedByNumber | indexedByVariable =>
          simp only [List.mem_cons, List.not_mem_nil, or_false] at hmem
          rcases hmem with rfl | rfl | rfl | rfl <;> cases hword
      | alone =>
          cases List.mem_singleton.mp hmem
          cases hword
  | item hitem =>
      cases List.mem_singleton.mp hmem
      exact absurd hword (Shape.not_isSettledWord_of_read hitem)
  | tag =>
      cases List.mem_singleton.mp hmem
      unfold openTag at hword
      dsimp only at hword
      split at hword <;> cases hword
  | named =>
      rcases List.mem_pair.mp hmem with rfl | rfl <;> cases hword
  | html | closeTag | quote | heredocStart | heredocEnd | text | curlyOpen | dollarCurlyOpen =>
      cases List.mem_singleton.mp hmem
      cases hword

/-! ## Keywords and names of a source -/

/-- The tokens are the lexemes, each with the kind that the significant tokens before it give to it. -/
def Classifies (lexemes : List Lexeme) (tokens : List Token) : Prop :=
  ∀ i : Nat, tokens[i]?.map (fun t => (t.kind, t.text)) = lexemes[i]?.map fun lexeme =>
    (lexeme.kind (.ofTokens (significantBefore tokens i)), String.ofList lexeme.text)

variable {tokens : List Token}

theorem exists_read_of_tokenize {source : String} (h : tokenize source = .ok tokens) :
    ∃ read, scanFile [] source.toList = .ok read ∧ Classifies read.reverse tokens := by
  obtain ⟨lexemes, hlexemes, rfl⟩ := exists_of_map_eq_ok h
  obtain ⟨read, hread, rfl⟩ := exists_of_map_eq_ok hlexemes
  refine ⟨read, hread, fun i => ?_⟩
  have hplace := Token.map_ofLexemes read.reverse [] 1 0 i
  rwa [List.append_nil] at hplace

theorem significantBefore_succ {m : Nat} {t : Token} (ht : tokens[m]? = some t) (hsignificant : t.isTrivial = false) :
    significantBefore tokens (m + 1) = t :: significantBefore tokens m := by
  unfold significantBefore
  rw [List.take_add_one, ht]
  simp [hsignificant]

/-- The kind of a lexeme whose kind is known, or of a word. -/
theorem Lexeme.kind_cases (lexeme : Lexeme) (earlier : List Token) :
    lexeme.shape = .of (lexeme.kind (.ofTokens earlier))
    ∨ (∃ word, Keyword.ofText? (String.ofList lexeme.text) = some word
        ∧ lexeme.kind (.ofTokens earlier) = .keyword word ∧ ¬ NamesFollow earlier)
    ∨ lexeme.kind (.ofTokens earlier) = .name
        ∧ ((Keyword.ofText? (String.ofList lexeme.text)).isSome → NamesFollow earlier) := by
  unfold Lexeme.kind
  split
  · next kind hshape => exact .inl hshape
  · split
    · next word hword =>
        split
        · next hnames => exact .inr (.inr ⟨rfl, fun _ => (Preceding.namesHere_ofTokens earlier).mp hnames⟩)
        · next hnames =>
            exact .inr (.inl ⟨word, hword, rfl, fun h => hnames ((Preceding.namesHere_ofTokens earlier).mpr h)⟩)
    · next hnone =>
        rw [hnone]
        exact .inr (.inr ⟨rfl, fun h => by cases h⟩)

/-- A settled word of a source is a name, and it follows the operator of a property or stands in a simple index. -/
theorem name_of_isSettledWord {source : String} {read : List Lexeme} (hread : scanFile [] source.toList = .ok read)
    (htokens : Classifies read.reverse tokens) {i : Nat} {lexeme : Lexeme} (hi : read.reverse[i]? = some lexeme)
    (hword : lexeme.shape.isSettledWord) :
    lexeme.shape = .of .name ∧ (NamesFollow (significantBefore tokens i) ∨ IndexName source tokens i) := by
  have hlt : i < read.length := List.length_reverse ▸ (List.getElem?_eq_some_iff.mp hi).1
  obtain ⟨b, before, own, k, hleads, hemits, hk, rfl, hown⟩ := Call.emitsAt_of_lexeme hread hlt
  rw [hown k hk] at hi
  obtain ⟨hname, ⟨m, operator, rfl, hm, hoperator⟩ | hindex⟩ := hemits.name hi hword
  · refine ⟨hname, .inl ?_⟩
    -- the operator is the token right before the name
    have hplace := htokens (before.length + m)
    rw [hown m (Nat.lt_of_succ_lt hk), hm, Option.map_some] at hplace
    obtain ⟨t, ht, heq⟩ := Option.map_eq_some_iff.mp hplace
    have hkind := (Prod.mk.inj heq).1
    have hmember : t.kind ∈ [Kind.arrow, .nullsafeArrow, .doubleColon] ∧ t.isTrivial = false := by
      rw [Token.isTrivial, hkind]
      unfold Lexeme.kind
      rcases List.mem_pair.mp hoperator with hshape | hshape <;> simp [hshape, Kind.isTrivial]
    rw [← Nat.add_assoc, significantBefore_succ ht hmember.2]
    exact .member hmember.1
  · obtain ⟨stop, read', text, x, name, rest, hx, hname', rfl, rfl, rfl⟩ := hindex
    refine ⟨hname, .inr ⟨stop, read', text, x, name, rest, before.length, hx, hname', hleads, rfl, fun k hk => ?_⟩⟩
    rw [htokens, hown k hk]
    rcases k with _ | _ | _ | _ | k
    · rfl
    · rfl
    · rfl
    · rfl
    · rfl

/-- **Keywords are told from names by what stands before them.** A keyword is spelled by the text of its token, and what
    stands before it makes no name of a word. A name that spells a keyword is one because of what stands before it, or
    it is the name in a simple index of a string. So no keyword that declares a class follows a double colon. -/
theorem tokenize_keywords {source : String} {tokens : List Token} (h : tokenize source = .ok tokens) {i : Nat}
    {t : Token} (ht : tokens[i]? = some t) :
    (∀ word, t.kind = .keyword word →
      Keyword.spellings.lookup (Text.lower t.text) = some word ∧ ¬ NamesFollow (significantBefore tokens i))
    ∧ (t.kind = .name → (Keyword.spellings.lookup (Text.lower t.text)).isSome →
      NamesFollow (significantBefore tokens i) ∨ IndexName source tokens i)
    ∧ (TokenStream.isClassKeyword t.kind → ∀ u ∈ (significantBefore tokens i).head?, u.kind ≠ .doubleColon) := by
  obtain ⟨read, hread, htokens⟩ := exists_read_of_tokenize h
  have hplace := htokens i
  rw [ht, Option.map_some] at hplace
  obtain ⟨lexeme, hlexeme, heq⟩ := Option.map_eq_some_iff.mp hplace.symm
  obtain ⟨hkind, htext⟩ := Prod.mk.inj heq
  have hcases := lexeme.kind_cases (significantBefore tokens i)
  rw [hkind, htext] at hcases
  have hkeyword : ∀ word, t.kind = .keyword word →
      Keyword.spellings.lookup (Text.lower t.text) = some word ∧ ¬ NamesFollow (significantBefore tokens i) := by
    intro word hword
    rw [hword] at hcases
    rcases hcases with hshape | ⟨word', hspells, hsame, hnot⟩ | ⟨hname, _⟩
    · have hname := (name_of_isSettledWord hread htokens hlexeme (hshape ▸ rfl)).1
      cases hshape.symm.trans hname
    · cases hsame
      exact ⟨hspells, hnot⟩
    · cases hname
  refine ⟨hkeyword, fun hname hspells => ?_, fun hclass u hu hcolon => ?_⟩
  · rw [hname] at hcases
    rcases hcases with hshape | ⟨_, _, hsame, _⟩ | ⟨_, hfollow⟩
    · exact (name_of_isSettledWord hread htokens hlexeme (hshape ▸ rfl)).2
    · cases hsame
    · exact .inl (hfollow hspells)
  · obtain ⟨word, hword⟩ : ∃ word, t.kind = .keyword word := by
      cases hkind : t.kind with
      | keyword word => exact ⟨word, rfl⟩
      | _ =>
          rw [hkind] at hclass
          cases hclass
    obtain ⟨earlier, hearlier⟩ := List.head?_eq_some_iff.mp hu
    apply (hkeyword word hword).2
    rw [hearlier]
    exact .member (by simp [hcolon])

/-- A function that returns a reference and is named by a keyword, and a keyword as the index in a string. -/
def keywordNames : String :=
  "<?php class A \x7b function &list() \x7b return \x22$a[if]\x22; \x7d \x7d"

theorem keywordNames_run : ∃ tokens, tokenize keywordNames = .ok tokens
    ∧ tokens[1]?.map (fun t => (t.kind, t.text)) = some (.keyword .classWord, "class")
    ∧ tokens[9]?.map Token.kind = some (.char '&')
    ∧ tokens[10]?.map (fun t => (t.kind, t.text)) = some (.name, "list")
    ∧ tokens[21]?.map (fun t => (t.kind, t.text)) = some (.name, "if")
    ∧ (Preceding.ofTokens (significantBefore tokens 21)).namesHere = false
    ∧ (Keyword.spellings.lookup (Text.lower "list")).isSome
    ∧ (Keyword.spellings.lookup (Text.lower "if")).isSome :=
  exists_ok_of_decide (by decide +kernel)

theorem keywordNames_context : ∃ tokens, tokenize keywordNames = .ok tokens
    ∧ (∃ t, tokens[1]? = some t ∧ t.kind = .keyword .classWord ∧ ¬ NamesFollow (significantBefore tokens 1)
        ∧ ∀ u ∈ (significantBefore tokens 1).head?, u.kind ≠ .doubleColon)
    ∧ (∃ t, tokens[10]? = some t ∧ t.kind = .name ∧ t.text = "list" ∧ NamesFollow (significantBefore tokens 10))
    ∧ ∃ t, tokens[21]? = some t ∧ t.kind = .name ∧ t.text = "if" ∧ IndexName keywordNames tokens 21 := by
  obtain ⟨tokens, htokens, hclass, hampersand, hlist, hif, hnotNamed, hlistWord, hifWord⟩ := keywordNames_run
  obtain ⟨t, ht, htEq⟩ := Option.map_eq_some_iff.mp hclass
  obtain ⟨u, hu, huEq⟩ := Option.map_eq_some_iff.mp hlist
  obtain ⟨v, hv, hvEq⟩ := Option.map_eq_some_iff.mp hif
  obtain ⟨htKind, -⟩ := Prod.mk.inj htEq
  obtain ⟨huKind, huText⟩ := Prod.mk.inj huEq
  obtain ⟨hvKind, hvText⟩ := Prod.mk.inj hvEq
  have hclassContext := tokenize_keywords htokens ht
  have hlistContext := (tokenize_keywords htokens hu).2.1 huKind (huText ▸ hlistWord)
  have hifContext := (tokenize_keywords htokens hv).2.1 hvKind (hvText ▸ hifWord)
  refine ⟨tokens, htokens, ⟨t, ht, htKind, (hclassContext.1 _ htKind).2, hclassContext.2.2 (htKind ▸ rfl)⟩,
    ⟨u, hu, huKind, huText, hlistContext.resolve_right ?_⟩, v, hv, hvKind, hvText, hifContext.resolve_left ?_⟩
  · -- the token before is no bracket
    rintro ⟨_, _, _, _, _, _, j, _, _, _, hj, hfour⟩
    obtain rfl : j = 8 := by omega
    obtain ⟨w, hw, hwEq⟩ := Option.map_eq_some_iff.mp (hfour 1 (by decide))
    rw [hw] at hampersand
    cases (Option.some.inj hampersand).symm.trans (Prod.mk.inj hwEq).1
  · intro hnames
    rw [(Preceding.namesHere_ofTokens _).mpr hnames] at hnotNamed
    cases hnotNamed

end Unassigned
