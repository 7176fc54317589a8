import Unassigned.Token.Lexer

/-!
# `Proofs.ItemForms` — what can stand in code, and at a variable in a string

`Item.read` looks at the start of code, `simpleInterpolation` at a variable in a string. Both decide in many steps.
`Item.Form` and `VariableForm` list the outcomes, with what each of them says about the text, so that a fact about all
lexemes of code or all variables in strings is a case for each form.
-/

namespace Unassigned

/-! ## Runs of characters and names -/

variable {s : List Char}

theorem exists_of_startsIn {p : Char → Bool} (h : startsIn p s) : ∃ c rest, s = c :: rest ∧ p c := by
  cases s with
  | nil => cases h
  | cons c rest => exact ⟨c, rest, rfl, h⟩

theorem isNameChar_of_isNameStart {c : Char} (h : isNameStart c) : isNameChar c := by
  simp [isNameChar, h]

/-- The text starts with its characters of the class. -/
theorem take_runLength (p : Char → Bool) (s : List Char) : s.take (runLength p s) = s.takeWhile p :=
  (List.prefix_iff_eq_take.mp (List.takeWhile_prefix p)).symm

theorem of_mem_take_runLength {p : Char → Bool} {c : Char} (h : c ∈ s.take (runLength p s)) : p c := by
  rw [take_runLength] at h
  exact List.all_eq_true.mp List.all_takeWhile c h

/-- A name: a character that can start one, and characters that can go on with it. -/
def IsName (word : List Char) : Prop :=
  startsIn isNameStart word ∧ ∀ c ∈ word, isNameChar c

theorem isName_take_runLength (h : startsIn isNameStart s) : IsName (s.take (runLength isNameChar s)) := by
  refine ⟨?_, fun _ => of_mem_take_runLength⟩
  obtain ⟨c, rest, rfl, hc⟩ := exists_of_startsIn h
  rw [take_runLength, List.takeWhile_cons_of_pos (isNameChar_of_isNameStart hc)]
  exact hc

/-! ## Items of code -/

namespace Item

/-- **What can stand in code** that starts with `c`, followed by `s`. -/
inductive Form (c : Char) (s : List Char) : Item → Prop where
  | blanks {more : Nat} : Form c s (.lexeme (.of .whitespace) more)
  | comment {kind : Kind} {more : Nat} : kind ∈ [Kind.comment, .docComment] → Form c s (.lexeme (.of kind) more)
  | openComment : Form c s .openComment
  | attributeOpen : c = '#' → startsIn (· == '[') s → Form c s (.lexeme (.of .attributeOpen) 1)
  | var : c = '$' → Form c s (.lexeme (.of .var) (runLength isNameChar s))
  | number {kind : Kind} {more : Nat} : kind ∈ [Kind.integer, .float] → Form c s (.lexeme (.of kind) more)
  | word : isNameStart c → Form c s (.lexeme .word (runLength isNameChar s))
  /-- A string without interpolated parts. -/
  | literal {more : Nat} : Form c s (.lexeme (.of .stringLiteral) more)
  | openString : Form c s .openString
  | quote : Form c s .quote
  | heredoc {rest : List Char} {opening : HeredocOpening} : heredocOpening? rest = some opening →
      Form c s (.heredoc (2 + opening.length) opening.label opening.isNowdoc)
  | closeTag {more : Nat} : Form c s (.closeTag more)
  | operator {text : String} {kind : Kind} : (text, kind) ∈ operatorTable →
      c :: s.take (text.length - 1) = text.toList → Form c s (.lexeme (.of kind) (text.length - 1))
  | separator : Form c s (.lexeme (.of .nsSeparator) 0)
  | char : Form c s (.lexeme (.of (.char c)) 0)

/-- The text starts with the operator found. -/
theorem take_operatorAt {c : Char} {s : List Char} {text : String} {kind : Kind}
    (h : operatorAt? (c :: s) = some (text, kind)) : c :: s.take (text.length - 1) = text.toList := by
  have hprefix : text.toList <+: c :: s := by
    simpa using List.find?_some h
  obtain ⟨rest, hrest⟩ := hprefix
  cases hlist : text.toList with
  | nil =>
      -- no operator of the table is empty
      have htable : operatorTable.all fun entry => !entry.1.toList.isEmpty := by decide
      have hentry := List.all_eq_true.mp htable _ (List.mem_of_find?_eq_some h)
      simp [hlist] at hentry
  | cons d more =>
      rw [hlist, List.cons_append] at hrest
      obtain ⟨rfl, rfl⟩ := List.cons.inj hrest
      have hlength : text.length - 1 = more.length := by
        rw [← String.length_toList, hlist]
        rfl
      rw [hlength, List.take_left]

theorem punctuation_form (c : Char) (s : List Char) : Form c s (punctuation c s) := by
  unfold punctuation
  split
  · next hoperator => exact .operator (List.mem_of_find?_eq_some hoperator) (take_operatorAt hoperator)
  · split
    · exact .separator
    · exact .char

theorem slash_form (s : List Char) : Form '/' s (slash s) := by
  unfold slash
  split
  · split
    · exact .openComment
    · refine .comment ?_
      split <;> simp
  · exact .comment (by simp)
  · exact punctuation_form '/' s

theorem hash_form (s : List Char) : Form '#' s (hash s) := by
  unfold hash
  split
  · next hbracket => exact .attributeOpen rfl hbracket
  · exact .comment (by simp)

theorem less_form (s : List Char) : Form '<' s (less s) := by
  unfold less
  split
  · split
    · next hopening => exact .heredoc hopening
    · exact punctuation_form '<' _
  · exact punctuation_form '<' s

theorem question_form (s : List Char) : Form '?' s (question s) := by
  unfold question
  split
  · exact .closeTag
  · exact punctuation_form '?' s

theorem numberKind_mem (text : List Char) : numberKind text ∈ [Kind.integer, .float] := by
  unfold numberKind
  dsimp only
  generalize (text.contains '.' || _) = isFloat
  cases isFloat <;> simp

theorem Form.ite {c : Char} {s : List Char} {p : Prop} [Decidable p] {x y : Item} (hx : p → Form c s x)
    (hy : Form c s y) : Form c s (if p then x else y) := by
  split
  · next hp => exact hx hp
  · exact hy

/-- **Every item of code has a form.** -/
theorem read_form (c : Char) (s : List Char) : Form c s (Item.read c s) := by
  unfold Item.read
  apply Form.ite (fun _ => .blanks)
  apply Form.ite (fun hc => hc ▸ slash_form s)
  apply Form.ite (fun hc => hc ▸ hash_form s)
  apply Form.ite (fun hc => .var hc.1)
  apply Form.ite (fun _ => .number (numberKind_mem _))
  apply Form.ite (fun hstart => .word hstart)
  apply Form.ite
  · intro _
    cases singleQuotedLength? s with
    | none => exact .openString
    | some more => exact .literal
  apply Form.ite
  · intro _
    cases plainStringLength? c s with
    | none => exact .quote
    | some more => exact .literal
  apply Form.ite (fun hc => hc ▸ less_form s)
  apply Form.ite (fun hc => hc ▸ question_form s)
  exact punctuation_form c s

end Item

/-! ## Variables in strings -/

/-- What a simple index has between its brackets. -/
inductive IndexForm : Kind → List Char → Prop where
  | number {digits : List Char} : digits ≠ [] → IndexForm .stringIndex digits
  | name {name : List Char} : IsName name → IndexForm .name name
  | var {name : List Char} : (∀ c ∈ name, isNameChar c) → IndexForm .var ('$' :: name)

theorem IndexForm.ne_nil {kind : Kind} {index : List Char} (h : IndexForm kind index) : index ≠ [] := by
  cases h with
  | number hne => exact hne
  | name hname =>
      rintro rfl
      cases hname.1
  | var => exact List.cons_ne_nil _ _

theorem simpleIndex?_form {kind : Kind} {length : Nat} (h : simpleIndex? s = some (kind, length)) :
    ∃ index after, s = '[' :: (index ++ ']' :: after) ∧ index.length = length ∧ IndexForm kind index := by
  unfold simpleIndex? at h
  split at h
  · next rest =>
      -- the index is what stands before the closing bracket
      have hclosed : ∀ {n : Nat}, startsIn (· == ']') (rest.drop n) → IndexForm kind (rest.take n) →
          ∃ index after, '[' :: rest = '[' :: (index ++ ']' :: after) ∧ index.length = n ∧ IndexForm kind index := by
        intro n hn hform
        obtain ⟨c, after, hafter, hc⟩ := exists_of_startsIn hn
        obtain rfl : c = ']' := by simpa using hc
        refine ⟨rest.take n, after, by rw [← hafter, List.take_append_drop], List.length_take_of_le ?_, hform⟩
        have hlength := congrArg List.length hafter
        simp only [List.length_drop, List.length_cons] at hlength
        omega
      dsimp only at h
      generalize (if startsIn (· == '-') rest then 1 else 0) = sign at h
      split at h
      · next hdigits =>
          cases h
          refine hclosed hdigits.2 (.number fun hnil => hdigits.1 ?_)
          rcases List.take_eq_nil_iff.mp hnil with hzero | hempty
          · omega
          · simp [hempty, runLength]
      split at h
      · next hname =>
          cases h
          exact hclosed hname.2 (.name (isName_take_runLength hname.1))
      split at h
      · next hvar =>
          cases h
          refine hclosed hvar.2.2 ?_
          obtain ⟨c, name, rfl, hc⟩ := exists_of_startsIn hvar.1
          obtain rfl : c = '$' := by simpa using hc
          rw [Nat.add_comm]
          exact .var fun _ => of_mem_take_runLength
      · cases h
  · cases h

theorem simpleProperty?_form {kind : Kind} {length : Nat} (h : simpleProperty? s = some (kind, length)) :
    kind ∈ [Kind.arrow, .nullsafeArrow] ∧ s.take length ≠ [] ∧ startsIn isNameStart (s.drop length) := by
  unfold simpleProperty? at h
  split at h
  · next hproperty =>
      cases h
      obtain ⟨tail, rfl⟩ := List.isPrefixOf_iff_prefix.mp hproperty.1
      exact ⟨by simp, by simp, hproperty.2⟩
  split at h
  · next hproperty =>
      cases h
      obtain ⟨tail, rfl⟩ := List.isPrefixOf_iff_prefix.mp hproperty.1
      exact ⟨by simp, by simp, hproperty.2⟩
  · cases h

/-- A character as a lexeme. -/
def charLexeme (c : Char) : Lexeme :=
  ⟨.of (.char c), [c]⟩

/-- **What can stand at a variable in a string**, behind its dollar sign: the variable with an index, with a property,
    or alone. -/
inductive VariableForm : List Char → List Lexeme → Prop where
  | indexedByNumber {s x digits : List Char} : (∀ c ∈ x, isNameChar c) →
      VariableForm s [⟨.of .var, '$' :: x⟩, charLexeme '[', ⟨.of .stringIndex, digits⟩, charLexeme ']']
  | indexedByName {x name rest : List Char} : (∀ c ∈ x, isNameChar c) → IsName name →
      VariableForm (x ++ '[' :: (name ++ ']' :: rest))
        [⟨.of .var, '$' :: x⟩, charLexeme '[', ⟨.of .name, name⟩, charLexeme ']']
  | indexedByVariable {s x y : List Char} : (∀ c ∈ x, isNameChar c) → (∀ c ∈ y, isNameChar c) →
      VariableForm s [⟨.of .var, '$' :: x⟩, charLexeme '[', ⟨.of .var, '$' :: y⟩, charLexeme ']']
  | property {s x operator name : List Char} {kind : Kind} : (∀ c ∈ x, isNameChar c) →
      kind ∈ [Kind.arrow, .nullsafeArrow] → (∀ c ∈ name, isNameChar c) →
      VariableForm s [⟨.of .var, '$' :: x⟩, ⟨.of kind, operator⟩, ⟨.of .name, name⟩]
  | alone {s x : List Char} : (∀ c ∈ x, isNameChar c) → VariableForm s [⟨.of .var, '$' :: x⟩]

/-- **Every variable in a string has a form.** -/
theorem simpleInterpolation_form (s : List Char) : VariableForm s (simpleInterpolation s).1 := by
  have hx : ∀ c ∈ s.take (runLength isNameChar s), isNameChar c := fun _ => of_mem_take_runLength
  unfold simpleInterpolation
  dsimp only
  split
  · next kind length hindex =>
      obtain ⟨index, after, hdrop, rfl, hform⟩ := simpleIndex?_form hindex
      have hs : s = s.take (runLength isNameChar s) ++ '[' :: (index ++ ']' :: after) := by
        rw [← hdrop, List.take_append_drop]
      rw [hdrop, List.drop_one, List.tail_cons, List.take_left]
      generalize s.take (runLength isNameChar s) = x at hx hs ⊢
      cases hform with
      | number => exact .indexedByNumber hx
      | name hname =>
          rw [hs]
          exact .indexedByName hx hname
      | var hname => exact .indexedByVariable hx hname
  · split
    · next kind length hproperty =>
        exact .property hx (simpleProperty?_form hproperty).1 fun _ => of_mem_take_runLength
    · exact .alone hx

end Unassigned
