import Unassigned.Proofs.Punctuation

/-!
# `Proofs.Wording` — the characters of names, variables and the ellipsis

A name is written in the characters of identifiers, a variable is a dollar sign and such characters, and the ellipsis
is three points. So neither a name nor a variable holds any punctuation: what stands at a colon, a comma or an
ampersand in the text of a source is never inside one of them (`tokenize_worded`).
-/

namespace Unassigned

/-! ## What a kind allows -/

/-- The text can stand for a token of the kind, as far as names, variables and the ellipsis go. -/
def Kind.Allows : Kind → List Char → Prop
  | .name, text => ∀ c ∈ text, isNameChar c
  | .var, text => ∃ name, text = '$' :: name ∧ ∀ c ∈ name, isNameChar c
  | .ellipsis, text => text = ['.', '.', '.']
  | _, _ => True

/-- A kind that is about neither names nor variables nor the ellipsis. -/
def Kind.isUnworded : Kind → Bool
  | .name | .var | .ellipsis => false
  | _ => true

theorem Kind.Allows.of_isUnworded {kind : Kind} (h : kind.isUnworded) (text : List Char) : kind.Allows text := by
  cases kind with
  | name | var | ellipsis => cases h
  | _ => trivial

/-- The text of a lexeme is one that its shape allows. -/
def Lexeme.Worded : Lexeme → Prop
  | ⟨.word, text⟩ => ∀ c ∈ text, isNameChar c
  | ⟨.of kind, text⟩ => kind.Allows text

/-! ## Items of code -/

namespace Item

/-- A lexeme that starts with `c` and goes on in `s` has a text that its shape allows. -/
def Words (c : Char) (s : List Char) : Item → Prop
  | .lexeme shape more => Lexeme.Worded ⟨shape, c :: s.take more⟩
  | _ => True

theorem Words.of_isUnworded {kind : Kind} (h : kind.isUnworded) {c : Char} {s : List Char} (more : Nat) :
    Words c s (.lexeme (.of kind) more) :=
  Kind.Allows.of_isUnworded h _

/-- Of the operators only the ellipsis matters, and it has one spelling. -/
theorem allows_of_operator {text : String} {kind : Kind} (h : (text, kind) ∈ operatorTable) :
    kind.Allows text.toList := by
  have htable : operatorTable.all fun entry => entry.2.isUnworded || decide (entry = ("...", .ellipsis)) := by decide
  rcases Bool.or_eq_true_iff.mp (List.all_eq_true.mp htable _ h) with hkind | hellipsis
  · exact .of_isUnworded hkind _
  · cases of_decide_eq_true hellipsis
    rfl

/-- **An item of code is worded as its shape says.** -/
theorem read_words (c : Char) (s : List Char) : (Item.read c s).Words c s := by
  have hform := read_form c s
  generalize Item.read c s = item at hform ⊢
  cases hform with
  | var hc => exact ⟨_, congrArg (· :: _) hc, fun _ => of_mem_take_runLength⟩
  | word hstart =>
      intro d hd
      rcases List.mem_cons.mp hd with rfl | hd
      · exact isNameChar_of_isNameStart hstart
      · exact of_mem_take_runLength hd
  | @operator text kind hentry htext =>
      show kind.Allows (c :: s.take (text.length - 1))
      rw [htext]
      exact allows_of_operator hentry
  | comment hkind | number hkind =>
      refine .of_isUnworded ?_ _
      rcases List.mem_pair.mp hkind with rfl | rfl <;> rfl
  | blanks | attributeOpen | literal | separator | char => exact .of_isUnworded rfl _
  | openComment | openString | quote | heredoc | closeTag => trivial

end Item

/-! ## Parts of strings -/

theorem simpleInterpolation_worded (s : List Char) : ∀ lexeme ∈ (simpleInterpolation s).1, lexeme.Worded := by
  have hform := simpleInterpolation_form s
  generalize (simpleInterpolation s).1 = lexemes at hform ⊢
  cases hform
  all_goals simp only [List.forall_mem_cons, List.not_mem_nil, false_imp_iff, implies_true, and_true]
  case indexedByNumber hx => exact ⟨⟨_, rfl, hx⟩, trivial, trivial, trivial⟩
  case indexedByName hx hname => exact ⟨⟨_, rfl, hx⟩, trivial, hname.2, trivial⟩
  case indexedByVariable hx hy => exact ⟨⟨_, rfl, hx⟩, trivial, ⟨_, rfl, hy⟩, trivial⟩
  case property hx hkind hname =>
    refine ⟨⟨_, rfl, hx⟩, .of_isUnworded ?_ _, hname⟩
    rcases List.mem_pair.mp hkind with rfl | rfl <;> rfl
  case alone hx => exact ⟨_, rfl, hx⟩

theorem Lexeme.Origin.worded {lexeme : Lexeme} (h : lexeme.Origin) : lexeme.Worded := by
  cases h with
  | @item c s shape more hitem =>
      have hwords := Item.read_words c s
      rw [hitem] at hwords
      exact hwords
  | mark c => trivial
  | part hpart => exact simpleInterpolation_worded _ _ hpart
  | curlyOpen => trivial
  | dollarCurlyOpen => trivial
  | @stretch kind text hkind =>
      apply Kind.Allows.of_isUnworded
      unfold Kind.isStretch at hkind
      split at hkind <;> trivial

/-! ## Tokens -/

/-- A word is written in the characters of identifiers, whichever kind it gets in its place. -/
theorem Lexeme.Worded.allows {lexeme : Lexeme} (h : lexeme.Worded) (before : Preceding) :
    (lexeme.kind before).Allows lexeme.text := by
  obtain ⟨shape, text⟩ := lexeme
  cases shape with
  | of kind => exact h
  | word =>
      unfold Lexeme.kind
      dsimp only
      split
      · split
        · exact h
        · trivial
      · exact h

/-- **Names, variables and the ellipsis are worded as their kinds say.** -/
theorem tokenize_worded {source : String} {tokens : List Token} (h : tokenize source = .ok tokens) :
    ∀ t ∈ tokens, t.kind.Allows t.text.toList := by
  obtain ⟨lexemes, hlexemes, rfl⟩ := exists_of_map_eq_ok h
  obtain ⟨read, hread, rfl⟩ := exists_of_map_eq_ok hlexemes
  intro t ht
  obtain ⟨lexeme, hlexeme, before, hkind, htext⟩ := Token.exists_of_mem_ofLexemes ht
  have horigin := scanFile_origin hread hlexeme
  rw [hkind, htext, String.toList_ofList]
  exact horigin.worded.allows before

/-! ## Files -/

namespace SourceFile

variable {name source : String} {f : SourceFile}

/-- What holds of every token of a source, and of the empty one beyond its end, holds at every place of the file. -/
theorem token_of_ofSource (h : ofSource name source = .ok f) {P : Token → Prop}
    (hbeyond : ∀ i, P ⟨.inlineHtml, "", 0, i⟩) (htokens : ∀ tokens, tokenize source = .ok tokens → ∀ t ∈ tokens, P t)
    (i : Nat) : P (f.token i) := by
  obtain ⟨tokens, htokenize, hfile⟩ := ofSource_eq_ok h
  obtain ⟨_, _, hstream⟩ := TokenStream.ofTokens_eq_ok (ofTokens_eq_ok hfile).1
  rw [hstream, TokenStream.token, Array.getD_eq_getD_getElem?, List.getElem?_toArray]
  cases ht : tokens[i]? with
  | none => exact hbeyond i
  | some t => exact htokens tokens htokenize t (List.mem_of_getElem? ht)

theorem allows_of_ofSource (h : ofSource name source = .ok f) (i : Nat) : (f.kind i).Allows (f.text i).toList :=
  token_of_ofSource h (fun _ => trivial) (fun _ => tokenize_worded) i

theorem isNameChar_of_name (h : ofSource name source = .ok f) {i : Nat} (hi : f.kind i = .name) {c : Char}
    (hc : c ∈ (f.text i).toList) : isNameChar c := by
  have hallows := allows_of_ofSource h i
  rw [hi] at hallows
  exact hallows c hc

end SourceFile

end Unassigned
