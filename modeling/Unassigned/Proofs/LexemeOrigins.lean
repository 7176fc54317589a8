import Unassigned.Proofs.ScannerCalls

/-!
# `Proofs.LexemeOrigins` — where the lexemes of a source come from

A call of a scanner adds some lexemes itself and leaves the rest to the calls that it makes. `Call.Emits` lists what a
call can add itself. Every lexeme of a source is added by one of the calls that the call for the source leads to, with
the lexemes around it that this call adds along with it (`Call.emitsAt_of_lexeme`). So a fact about all lexemes of a
certain shape is a case for each constructor of `Emits`, and no induction over the scanners. Every opening of a heredoc,
for one, is read by a call for code (`Call.opensAt_of_lexeme`).
-/

namespace Unassigned

/-! ## Kinds of the items of code -/

/-- The kinds of lexemes that code is cut into one by one; a word has no kind yet. -/
def Kind.isOfItem : Kind → Bool
  | .whitespace | .comment | .docComment | .var | .integer | .float | .stringLiteral | .attributeOpen
  | .increment | .decrement | .concatAssign | .plusAssign | .coalesceAssign | .doubleColon | .arrow
  | .nullsafeArrow | .doubleArrow | .nsSeparator | .ellipsis | .operator | .char _ => true
  | _ => false

namespace Item

/-- A lexeme of code is a word, or of a kind that items have. -/
def HasItemKind : Item → Prop
  | .lexeme (.of kind) _ => kind.isOfItem
  | _ => True

theorem read_kind (c : Char) (s : List Char) : (Item.read c s).HasItemKind := by
  have htable : ∀ entry ∈ operatorTable, entry.2.isOfItem := by decide
  have hform := read_form c s
  generalize Item.read c s = item at hform ⊢
  cases hform with
  | comment hkind | number hkind =>
      rcases List.mem_pair.mp hkind with rfl | rfl <;> rfl
  | operator hentry => exact htable _ hentry
  | _ => trivial

theorem isOfItem_of_read {c : Char} {s : List Char} {kind : Kind} {more : Nat}
    (h : Item.read c s = .lexeme (.of kind) more) : kind.isOfItem := by
  have hkind := read_kind c s
  rwa [h] at hkind

end Item

/-! ## What a call adds itself -/

namespace Call

variable {read : List Lexeme} {s : List Char}

/-- **What a call adds itself**, in order, behind the lexemes read before. -/
inductive Emits : Call → List Lexeme → List Lexeme → Prop where
  | html {read : List Lexeme} {s : List Char} :
      Emits (.file read s) read [⟨.of .inlineHtml, s.take (htmlLength s)⟩]
  | tag {read : List Lexeme} {s rest : List Char} : s.drop (htmlLength s) = '<' :: '?' :: rest →
      Emits (.file read s) (readHtml read s) [openTag rest]
  | item {stop : CodeEnd} {read : List Lexeme} {c : Char} {s : List Char} {shape : Shape} {more : Nat} :
      Item.read c s = .lexeme shape more →
      Emits (.code stop read (c :: s)) read [⟨shape, c :: s.take more⟩]
  | closeTag {stop : CodeEnd} {read : List Lexeme} {c : Char} {s : List Char} {more : Nat} :
      Item.read c s = .closeTag more →
      Emits (.code stop read (c :: s)) read [⟨.of .closeTag, c :: s.take more⟩]
  /-- One of the two quotes of a string. -/
  | quote {stop : CodeEnd} {read before : List Lexeme} {c : Char} {s : List Char} : Item.read c s = .quote →
      Emits (.code stop read (c :: s)) before [charLexeme c]
  | heredocStart {stop : CodeEnd} {read : List Lexeme} {c : Char} {s label : List Char} {more : Nat}
      {isNowdoc : Bool} : Item.read c s = .heredoc more label isNowdoc →
      Emits (.code stop read (c :: s)) read [⟨.of .heredocStart, c :: s.take more⟩]
  | heredocEnd {stop : CodeEnd} {read before : List Lexeme} {s text : List Char} :
      Emits (.code stop read s) before [⟨.of .heredocEnd, text⟩]
  /-- Literal text of a string, or the whole body of a heredoc. -/
  | text {a : Call} {before : List Lexeme} {text : List Char} : Emits a before [⟨.of .stringText, text⟩]
  /-- A variable in a string, with its index or property. -/
  | simple {stop : StringEnd} {read : List Lexeme} {text s : List Char} : startsIn isNameStart s →
      Emits (.string stop read text ('$' :: s)) (flushText read text) (simpleInterpolation s).1
  | curlyOpen {stop : StringEnd} {read before : List Lexeme} {text s : List Char} :
      Emits (.string stop read text s) before [⟨.of .curlyOpen, ['\x7b']⟩]
  | dollarCurlyOpen {stop : StringEnd} {read before : List Lexeme} {text s : List Char} :
      Emits (.string stop read text s) before [⟨.of .dollarCurlyOpen, ['$', '\x7b']⟩]
  /-- A name in braces behind the dollar sign, and the closing brace. -/
  | named {stop : StringEnd} {read before : List Lexeme} {text s name : List Char} :
      Emits (.string stop read text s) before [⟨.of .stringVarName, name⟩, charLexeme '\x7d']

/-- Behind `i` lexemes, a call that `a` leads to adds a lexeme itself. -/
def EmitsAt (a : Call) (read' : List Lexeme) (i : Nat) : Prop :=
  ∃ (b : Call) (before own : List Lexeme) (k : Nat), a.Leads b ∧ b.Emits before own ∧ k < own.length
    ∧ before.length + k = i ∧ own.reverse ++ before <:+ read'

/-- Where `read'` goes on behind `read`, every lexeme is added by a call that `a` leads to. -/
def AccountsFor (a : Call) (read read' : List Lexeme) : Prop :=
  read <:+ read' ∧ ∀ i, read.length ≤ i → i < read'.length → a.EmitsAt read' i

namespace AccountsFor

variable {a b : Call} {read mid read' : List Lexeme} {text : List Char}

theorem refl : a.AccountsFor read read :=
  ⟨List.suffix_rfl, fun _ hle hlt => absurd hlt (Nat.not_lt.mpr hle)⟩

theorem emits {new : List Lexeme} (h : a.Emits read new) : a.AccountsFor read (new.reverse ++ read) := by
  refine ⟨List.suffix_append _ _, fun i hle hlt => ?_⟩
  rw [List.length_append, List.length_reverse] at hlt
  exact ⟨a, read, new, i - read.length, .refl, h, by omega, by omega, List.suffix_rfl⟩

theorem flushed : a.AccountsFor read (flushText read text) := by
  unfold flushText
  split
  · exact refl
  · exact emits .text

theorem trans (hmid : a.AccountsFor read mid) (h : a.AccountsFor mid read') : a.AccountsFor read read' := by
  refine ⟨hmid.1.trans h.1, fun i hle hlt => ?_⟩
  -- the place is among the lexemes of the first part, or among those of the second
  rcases Nat.lt_or_ge i mid.length with hfirst | hsecond
  · obtain ⟨b, before, own, k, hleads, hemits, hk, hi, hsuffix⟩ := hmid.2 i hle hfirst
    exact ⟨b, before, own, k, hleads, hemits, hk, hi, hsuffix.trans h.1⟩
  · exact h.2 i hsecond hlt

/-- What a call that `a` makes adds. -/
theorem part (hb : b ∈ a.next) (h : b.AccountsFor read read') : a.AccountsFor read read' := by
  refine ⟨h.1, fun i hle hlt => ?_⟩
  obtain ⟨c, before, own, k, hleads, hemits⟩ := h.2 i hle hlt
  exact ⟨c, before, own, k, .head hb hleads, hemits⟩

end AccountsFor

/-! ## All calls account for their lexemes -/

/-- Every lexeme that the scanner of code adds is added by a call that its call leads to. -/
def CodeAccounts : CodeRelation := fun stop read s read' _ =>
  (Call.code stop read s).AccountsFor read read'

/-- Every lexeme that the scanner of strings adds is added by a call that its call leads to. -/
def StringAccounts : StringRelation := fun stop read text s read' _ =>
  (Call.string stop read text s).AccountsFor read read'

theorem accounts_of_code {stop : CodeEnd} {read' : List Lexeme} {rest : List Char}
    (h : CodeStep (CodeReads.And CodeAccounts) (StringReads.And StringAccounts) stop read s read' rest) :
    CodeAccounts stop read s read' rest := by
  unfold CodeAccounts
  cases h with
  | done => exact .refl
  | last hitem => exact .emits (.item hitem)
  | closeTag hitem => exact .emits (.closeTag hitem)
  | lexeme hitem hstop hrest =>
      refine (AccountsFor.emits (.item hitem)).trans (.part ?_ hrest.2)
      rw [next_lexeme hitem, hstop]
      exact List.mem_singleton_self _
  | quote hitem hstring hrest =>
      refine (AccountsFor.emits (.quote hitem)).trans (AccountsFor.trans (.part ?_ hstring.2)
        ((AccountsFor.emits (.quote hitem)).trans (.part ?_ hrest.2)))
      · rw [next_quote hitem hstring.1]
        exact List.mem_cons_self
      · rw [next_quote hitem hstring.1]
        exact List.mem_cons_of_mem _ List.mem_cons_self
  | @heredoc _ _ mid _ c s _ _ more length closing isNowdoc hitem hbody hmid hrest =>
      -- the opening, the body, the closing label and what follows
      refine (AccountsFor.emits (.heredocStart hitem)).trans (AccountsFor.trans ?_
        ((AccountsFor.emits .heredocEnd).trans (.part ?_ hrest.2)))
      · cases hmid with
        | literal => exact .flushed
        | interpolated hstring hparts =>
            refine .part ?_ hstring.2
            rw [next_heredoc hitem hbody (.interpolated hstring.1 hparts), if_neg hparts]
            exact List.mem_append_left _ List.mem_cons_self
      · have hreads : HeredocReads StringReads isNowdoc length (⟨.of .heredocStart, c :: s.take more⟩ :: read)
            (s.drop more) mid := hmid.mono fun h => h.1
        rw [next_heredoc hitem hbody hreads]
        exact List.mem_append_right _ List.mem_cons_self

theorem accounts_of_string {stop : StringEnd} {read' : List Lexeme} {text rest : List Char}
    (h : StringStep (CodeReads.And CodeAccounts) (StringReads.And StringAccounts) stop read text s read' rest) :
    StringAccounts stop read text s read' rest := by
  unfold StringAccounts
  cases h with
  | done | close => exact .flushed
  | escape _ hrest hpiece =>
      refine .part ?_ hrest.2
      rw [next_escape hpiece]
      exact List.mem_singleton_self _
  | simple hname hrest hpiece =>
      refine AccountsFor.flushed.trans ((AccountsFor.emits (.simple hname)).trans (.part ?_ hrest.2))
      rw [next_simple hpiece]
      exact List.mem_singleton_self _
  | braces hcode hstop hrest hpiece =>
      subst hstop
      refine AccountsFor.flushed.trans ((AccountsFor.emits .curlyOpen).trans
        (AccountsFor.trans (.part ?_ hcode.2) (.part ?_ hrest.2)))
      · rw [next_braces hpiece hcode.1]
        exact List.mem_cons_self
      · rw [next_braces hpiece hcode.1]
        exact List.mem_cons_of_mem _ List.mem_cons_self
  | named _ hrest hpiece =>
      refine AccountsFor.flushed.trans ((AccountsFor.emits .dollarCurlyOpen).trans
        ((AccountsFor.emits .named).trans (.part ?_ hrest.2)))
      rw [next_named hpiece]
      exact List.mem_singleton_self _
  | dollarBraces hcode hstop hrest hpiece =>
      subst hstop
      refine AccountsFor.flushed.trans ((AccountsFor.emits .dollarCurlyOpen).trans
        (AccountsFor.trans (.part ?_ hcode.2) (.part ?_ hrest.2)))
      · rw [next_dollarBraces hpiece hcode.1]
        exact List.mem_cons_self
      · rw [next_dollarBraces hpiece hcode.1]
        exact List.mem_cons_of_mem _ List.mem_cons_self
  | char _ _ hrest hpiece =>
      refine .part ?_ hrest.2
      rw [next_char hpiece]
      exact List.mem_singleton_self _

/-- **Every lexeme that the scan of a file adds** is added by a call that its call leads to. -/
theorem accounts_of_file {read' : List Lexeme} (h : scanFile read s = .ok read') :
    (Call.file read s).AccountsFor read read' := by
  induction hn : s.length using Nat.strongRecOn generalizing read s with
  | ind n ih =>
      subst hn
      have hhtml : (Call.file read s).AccountsFor read (readHtml read s) := by
        unfold readHtml
        split
        · exact .refl
        · exact .emits .html
      rcases scanFile_step h with ⟨_, rfl⟩ | ⟨inside, mid, after, htag, hcode, hfile, hshort⟩
      · exact hhtml
      · have hnext : next (.file read s) = [.code .file (openTag inside :: readHtml read s)
            (inside.drop (openTagMore inside)), .file mid after] := by
          simp only [next, htag, behind_of_code hcode]
        have hinside := (scanners_induction accounts_of_code accounts_of_string).1 hcode
        exact (hhtml.trans (.emits (.tag htag))).trans
          (AccountsFor.trans (.part (by simp [hnext]) hinside) (.part (by simp [hnext]) (ih _ hshort hfile rfl)))

/-- **Every lexeme of a source** is added by a call that the call for the source leads to, with all that this call adds
    along with it. -/
theorem emitsAt_of_lexeme {source : List Char} (h : scanFile [] source = .ok read) {i : Nat} (hi : i < read.length) :
    ∃ (b : Call) (before own : List Lexeme) (k : Nat),
      (Call.file [] source).Leads b ∧ b.Emits before own ∧ k < own.length ∧ before.length + k = i
      ∧ ∀ j < own.length, read.reverse[before.length + j]? = own[j]? := by
  obtain ⟨_, hall⟩ := accounts_of_file h
  obtain ⟨b, before, own, k, hleads, hemits, hk, hi, later, hread⟩ := hall i (Nat.zero_le _) hi
  refine ⟨b, before, own, k, hleads, hemits, hk, hi, fun j hj => ?_⟩
  have hreverse : read.reverse = before.reverse ++ (own ++ later.reverse) := by
    rw [← hread]
    simp
  rw [hreverse, List.getElem?_append_right (by simp), List.getElem?_append_left (by simpa using hj)]
  simp

end Call

/-! ## Lexemes that open no heredoc -/

/-- The lexemes of an item of code open no heredoc. -/
theorem rawKind_of_item {c : Char} {s text : List Char} {shape : Shape} {more : Nat}
    (h : Item.read c s = .lexeme shape more) : Lexeme.rawKind ⟨shape, text⟩ ≠ .heredocStart := by
  cases shape with
  | word => exact nofun
  | of kind =>
      intro hkind
      obtain rfl : kind = .heredocStart := hkind
      cases Item.isOfItem_of_read h

theorem simpleInterpolation_kind (s : List Char) :
    ∀ lexeme ∈ (simpleInterpolation s).1, lexeme.rawKind ≠ .heredocStart := by
  have hform := simpleInterpolation_form s
  generalize (simpleInterpolation s).1 = lexemes at hform ⊢
  cases hform with
  | property _ hkind =>
      rcases List.mem_pair.mp hkind with rfl | rfl <;> simp [Lexeme.rawKind]
  | _ => simp [Lexeme.rawKind, charLexeme]

namespace Call

/-! ## Openings of a call -/

/-- A call that `a` leads to reads the opening of a heredoc, behind `i` lexemes. -/
def OpensAt (a : Call) (i : Nat) : Prop :=
  ∃ stop read c s more label isNowdoc, a.Leads (.code stop read (c :: s))
    ∧ Item.read c s = .heredoc more label isNowdoc ∧ read.length = i

/-- A call that adds the opening of a heredoc reads it, and adds nothing else with it. -/
theorem Emits.opening {a : Call} {before own : List Lexeme} (h : a.Emits before own) {lexeme : Lexeme} {k : Nat}
    (hk : own[k]? = some lexeme) (hkind : lexeme.rawKind = .heredocStart) :
    ∃ stop c s more label isNowdoc, a = .code stop before (c :: s)
      ∧ Item.read c s = .heredoc more label isNowdoc ∧ k = 0 := by
  have hmem := List.mem_of_getElem? hk
  cases h with
  | @heredocStart stop _ c s label more isNowdoc hitem =>
      have hlt := (List.getElem?_eq_some_iff.mp hk).1
      exact ⟨stop, c, s, more, label, isNowdoc, rfl, hitem, Nat.lt_one_iff.mp hlt⟩
  | item hitem =>
      obtain rfl := List.mem_singleton.mp hmem
      exact absurd hkind (rawKind_of_item hitem)
  | simple => exact absurd hkind (simpleInterpolation_kind _ lexeme hmem)
  | tag =>
      obtain rfl := List.mem_singleton.mp hmem
      unfold openTag Lexeme.rawKind at hkind
      dsimp only at hkind
      split at hkind <;> cases hkind
  | named =>
      rcases List.mem_pair.mp hmem with rfl | rfl <;> cases hkind
  | html | closeTag | quote | heredocEnd | text | curlyOpen | dollarCurlyOpen =>
      obtain rfl := List.mem_singleton.mp hmem
      cases hkind

/-- **Every opening among the lexemes of a source** is read by a call that the call for the source leads to. -/
theorem opensAt_of_lexeme {source : List Char} {read : List Lexeme} (h : scanFile [] source = .ok read) {i : Nat}
    (hi : (read.reverse.map Lexeme.rawKind)[i]? = some .heredocStart) : (Call.file [] source).OpensAt i := by
  obtain ⟨lexeme, hlexeme, hkind⟩ := Option.map_eq_some_iff.mp (List.getElem?_map ▸ hi)
  have hlt := (List.getElem?_eq_some_iff.mp hlexeme).1
  obtain ⟨b, before, own, k, hleads, hemits, hk, rfl, hown⟩ := emitsAt_of_lexeme h (by simpa using hlt)
  rw [hown k hk] at hlexeme
  obtain ⟨stop, c, s, more, label, isNowdoc, rfl, hitem, rfl⟩ := hemits.opening hlexeme hkind
  exact ⟨stop, before, c, s, more, label, isNowdoc, hleads, hitem, rfl⟩

end Call

end Unassigned
