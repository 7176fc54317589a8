import Unassigned.Proofs.LexemeOrigins

/-!
# `Proofs.Punctuation` — a bracket is spelled as its kind says

The scanners come by a lexeme in few ways, which `Lexeme.Origin` lists: it is an item of code, a part of a
string, or a stretch between such parts. What is known of an origin is known of every token of a source.

Here it is **the text of a bracket**. A kind tells a bracket by its character, and the token has just that
character for its text (`tokenize_spelled`); so it makes no difference which of the two is looked at.
-/

namespace Unassigned

/-! ## Where lexemes come from -/

/-- Tags, labels, and text without structure. -/
def Kind.isStretch : Kind → Bool
  | .inlineHtml | .openTag | .openTagEcho | .closeTag | .stringText | .stringVarName | .heredocStart
  | .heredocEnd => true
  | _ => false

/-- How the scanners come by a lexeme. -/
inductive Lexeme.Origin : Lexeme → Prop where
  /-- An item of code. -/
  | item {c : Char} {s : List Char} {shape : Shape} {more : Nat} :
      Item.read c s = .lexeme shape more → Origin ⟨shape, c :: s.take more⟩
  /-- A quote around interpolated parts, or the brace behind a name in them. -/
  | mark (c : Char) : Origin ⟨.of (.char c), [c]⟩
  /-- A variable in a string, or what belongs to it. -/
  | part {s : List Char} {lexeme : Lexeme} : lexeme ∈ (simpleInterpolation s).1 → Origin lexeme
  | curlyOpen : Origin ⟨.of .curlyOpen, ['\x7b']⟩
  | dollarCurlyOpen : Origin ⟨.of .dollarCurlyOpen, ['$', '\x7b']⟩
  /-- A tag, a label, or text without structure. -/
  | stretch {kind : Kind} {text : List Char} : kind.isStretch → Origin ⟨.of kind, text⟩

/-- What a call adds has an origin. -/
theorem Call.Emits.origin {a : Call} {before own : List Lexeme} (h : a.Emits before own) :
    ∀ lexeme ∈ own, lexeme.Origin := by
  intro lexeme hlexeme
  cases h with
  | simple => exact .part hlexeme
  | named =>
      rcases List.mem_cons.mp hlexeme with rfl | hlexeme
      · exact .stretch rfl
      · cases List.mem_singleton.mp hlexeme
        exact .mark '\x7d'
  | tag =>
      cases List.mem_singleton.mp hlexeme
      unfold openTag
      dsimp only
      split <;> exact .stretch rfl
  | item hitem =>
      cases List.mem_singleton.mp hlexeme
      exact .item hitem
  | quote =>
      cases List.mem_singleton.mp hlexeme
      exact .mark _
  | curlyOpen =>
      cases List.mem_singleton.mp hlexeme
      exact .curlyOpen
  | dollarCurlyOpen =>
      cases List.mem_singleton.mp hlexeme
      exact .dollarCurlyOpen
  | html | closeTag | heredocStart | heredocEnd | text =>
      cases List.mem_singleton.mp hlexeme
      exact .stretch rfl

/-- **Every lexeme of a source has an origin.** -/
theorem scanFile_origin {source : List Char} {read : List Lexeme} (h : scanFile [] source = .ok read) {lexeme : Lexeme}
    (hlexeme : lexeme ∈ read.reverse) : lexeme.Origin := by
  obtain ⟨i, hi⟩ := List.mem_iff_getElem?.mp hlexeme
  have hlength : i < read.length := List.length_reverse ▸ (List.getElem?_eq_some_iff.mp hi).1
  obtain ⟨b, before, own, k, _, hemits, hk, rfl, hown⟩ := Call.emitsAt_of_lexeme h hlength
  exact hemits.origin lexeme (List.mem_of_getElem? ((hown k hk).symm.trans hi))

/-! ## Kinds with one text -/

/-- The one text that lexemes of a kind have, for the kinds that brackets are of. -/
def Kind.spelling? : Kind → Option (List Char)
  | .char c => some [c]
  | .curlyOpen => some ['\x7b']
  | .dollarCurlyOpen => some ['$', '\x7b']
  | .attributeOpen => some ['#', '[']
  | _ => none

/-- A lexeme has the text of its kind. -/
def Lexeme.Spelled (lexeme : Lexeme) : Prop :=
  ∀ text, lexeme.rawKind.spelling? = some text → lexeme.text = text

theorem Lexeme.Spelled.of_none {kind : Kind} (h : kind.spelling? = none) (text : List Char) :
    Spelled ⟨.of kind, text⟩ := by
  intro text' htext
  cases h.symm.trans htext

theorem Lexeme.Spelled.of_some {kind : Kind} {text : List Char} (h : kind.spelling? = some text) :
    Spelled ⟨.of kind, text⟩ := by
  intro text' htext
  exact Option.some.inj (h.symm.trans htext)

namespace Item

/-- A lexeme that starts with `c` and goes on in `s` has the text of its kind. -/
def Spells (c : Char) (s : List Char) : Item → Prop
  | .lexeme shape more => Lexeme.Spelled ⟨shape, c :: s.take more⟩
  | _ => True

/-- **An item of code has the text of its kind.** -/
theorem read_spells (c : Char) (s : List Char) : (Item.read c s).Spells c s := by
  have htable : ∀ entry ∈ operatorTable, entry.2.spelling? = none := by decide
  have hform := read_form c s
  generalize Item.read c s = item at hform ⊢
  cases hform with
  | attributeOpen hc hbracket =>
      obtain ⟨d, rest, rfl, hd⟩ := exists_of_startsIn hbracket
      obtain rfl : d = '[' := by simpa using hd
      exact Lexeme.Spelled.of_some (hc ▸ rfl)
  | char => exact Lexeme.Spelled.of_some rfl
  | comment hkind | number hkind =>
      refine Lexeme.Spelled.of_none ?_ _
      rcases List.mem_pair.mp hkind with rfl | rfl <;> rfl
  | operator hentry => exact Lexeme.Spelled.of_none (htable _ hentry) _
  | word =>
      intro text htext
      cases htext
  | blanks | var | literal | separator => exact Lexeme.Spelled.of_none rfl _
  | openComment | openString | quote | heredoc | closeTag => trivial

end Item

theorem simpleInterpolation_spelled (s : List Char) : ∀ lexeme ∈ (simpleInterpolation s).1, lexeme.Spelled := by
  have hform := simpleInterpolation_form s
  generalize (simpleInterpolation s).1 = lexemes at hform ⊢
  cases hform
  all_goals simp only [List.forall_mem_cons, List.not_mem_nil, false_imp_iff, implies_true, and_true]
  case indexedByNumber | indexedByName | indexedByVariable =>
    exact ⟨.of_none rfl _, .of_some rfl, .of_none rfl _, .of_some rfl⟩
  case property _ hkind _ =>
    refine ⟨.of_none rfl _, .of_none ?_ _, .of_none rfl _⟩
    rcases List.mem_pair.mp hkind with rfl | rfl <;> rfl
  case alone => exact .of_none rfl _

theorem Lexeme.Origin.spelled {lexeme : Lexeme} (h : lexeme.Origin) : lexeme.Spelled := by
  cases h with
  | @item c s shape more hitem =>
      have hspells := Item.read_spells c s
      rw [hitem] at hspells
      exact hspells
  | mark c => exact .of_some rfl
  | part hpart => exact simpleInterpolation_spelled _ _ hpart
  | curlyOpen => exact .of_some rfl
  | dollarCurlyOpen => exact .of_some rfl
  | stretch hkind =>
      apply Spelled.of_none
      unfold Kind.isStretch at hkind
      split at hkind <;> trivial

/-! ## Tokens -/

/-- A token has the kind of a lexeme in its place, and the text of it. -/
theorem Token.exists_of_mem_ofLexemes {lexemes : List Lexeme} {before : Preceding} {line index : Nat} {t : Token}
    (h : t ∈ ofLexemes before line index lexemes) :
    ∃ lexeme ∈ lexemes, ∃ before', t.kind = lexeme.kind before' ∧ t.text = String.ofList lexeme.text := by
  induction lexemes generalizing before line index with
  | nil => cases h
  | cons lexeme lexemes ih =>
      rcases List.mem_cons.mp h with rfl | h
      · exact ⟨lexeme, List.mem_cons_self, before, rfl, rfl⟩
      · obtain ⟨other, hother, hkind⟩ := ih h
        exact ⟨other, List.mem_cons_of_mem lexeme hother, hkind⟩

/-- The token has the text of its kind, if it is of a kind that brackets are of. -/
def Token.Spelled (t : Token) : Prop :=
  ∀ text, t.kind.spelling? = some text → t.text = String.ofList text

/-- **A bracket is spelled as its kind says.** -/
theorem tokenize_spelled {source : String} {tokens : List Token} (h : tokenize source = .ok tokens) :
    ∀ t ∈ tokens, t.Spelled := by
  obtain ⟨lexemes, hlexemes, rfl⟩ := exists_of_map_eq_ok h
  obtain ⟨read, hread, rfl⟩ := exists_of_map_eq_ok hlexemes
  intro t ht text htext
  obtain ⟨lexeme, hlexeme, before, hkind, hlexemeText⟩ := Token.exists_of_mem_ofLexemes ht
  have hraw : lexeme.rawKind = t.kind := by
    apply (Lexeme.kind_eq_iff ?_ ?_).mp hkind.symm
    · intro hname
      rw [hname] at htext
      cases htext
    · intro word hkeyword
      rw [hkeyword] at htext
      cases htext
  have hspelled := (scanFile_origin hread hlexeme).spelled
  rw [hlexemeText, hspelled text (hraw ▸ htext)]

end Unassigned
