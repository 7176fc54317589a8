import Unassigned.Proofs.Formatting.Declarations
import Unassigned.Proofs.StraightLine.Tokens

/-!
# `Proofs.StraightLine.File` — the parsed file of a straight-line program

`Holds f ws` says that the words `ws` are the significant tokens of a stream, with one token before each.
Moves through such a stream are moves from word to word. A program has two groups, the parameter list and the
body, and one function; so it can be parsed (`Program.exists_file`).
-/

namespace Unassigned

namespace StraightLine

variable {ws : List Word} {w : Word}

/-! ## Moving from word to word -/

/-- The stream consists of the words, each behind what stands before it. -/
structure Holds (f : TokenStream) (ws : List Word) : Prop where
  size : f.size = 2 * ws.length
  separator : ∀ {k : Nat}, k < ws.length → f.token (2 * k) = separator k
  word : ∀ {k : Nat} {w : Word}, ws[k]? = some w → f.token (2 * k + 1) = w.token k

theorem length_tokensFrom (k : Nat) (ws : List Word) : (tokensFrom k ws).length = 2 * ws.length := by
  induction ws generalizing k with
  | nil => rfl
  | cons w ws ih => simp [tokensFrom, ih]; omega

theorem tokensFrom_separator {j : Nat} (hj : j < ws.length) (k : Nat) :
    (tokensFrom k ws)[2 * j]? = some (separator (k + j)) := by
  induction ws generalizing j k with
  | nil => cases hj
  | cons w ws ih =>
      cases j with
      | zero => rfl
      | succ j =>
          have hrest := ih (Nat.lt_of_succ_lt_succ hj) (k + 1)
          rwa [Nat.add_right_comm, Nat.add_assoc] at hrest

theorem tokensFrom_word {j : Nat} (hw : ws[j]? = some w) (k : Nat) :
    (tokensFrom k ws)[2 * j + 1]? = some (w.token (k + j)) := by
  induction ws generalizing j k with
  | nil => cases hw
  | cons v ws ih =>
      cases j with
      | zero =>
          obtain rfl : v = w := Option.some.inj hw
          rfl
      | succ j =>
          have hrest := ih (show ws[j]? = some w from hw) (k + 1)
          rwa [Nat.add_right_comm, Nat.add_assoc] at hrest

theorem holds_tokensFrom (ws : List Word) (partners : Array (Option Nat)) :
    Holds ⟨(tokensFrom 0 ws).toArray, partners⟩ ws where
  size := by simp [TokenStream.size, length_tokensFrom]
  separator := by
    intro k hk
    rw [TokenStream.token_eq (tokensFrom_separator hk 0), Nat.zero_add]
  word := by
    intro k w hw
    rw [TokenStream.token_eq (tokensFrom_word hw 0), Nat.zero_add]

theorem Word.isTrivial_kind (w : Word) : w.kind.isTrivial = false := by
  cases w <;> rfl

namespace Holds

variable {f : TokenStream} {ws : List Word} {k : Nat} {w : Word}

theorem kind (h : Holds f ws) (hw : ws[k]? = some w) : f.kind (2 * k + 1) = w.kind := by
  rw [TokenStream.kind, h.word hw]
  rfl

theorem isTrivial_word (h : Holds f ws) (hw : ws[k]? = some w) : (f.token (2 * k + 1)).isTrivial = false := by
  rw [h.word hw]
  exact w.isTrivial_kind

theorem isTrivial_separator (h : Holds f ws) (hk : k + 1 < ws.length) :
    (f.token (2 * (k + 1))).isTrivial = true := by
  rw [h.separator hk]
  rfl

/-- The token after a word is the next word. -/
theorem next? (h : Holds f ws) (hw : ws[k + 1]? = some w) : f.next? (2 * k + 1) = some (2 * (k + 1) + 1) := by
  have hk := (List.getElem?_eq_some_iff.mp hw).1
  have hsize := h.size
  refine TokenStream.nextFrom?_eq_some.mpr ⟨by omega, by omega, h.isTrivial_word hw, ?_⟩
  intro j hlo hhi
  rw [show j = 2 * (k + 1) by omega]
  exact h.isTrivial_separator hk

/-- The token before a word is the word before. -/
theorem prev? (h : Holds f ws) (hw : ws[k]? = some w) (hnext : k + 1 < ws.length) :
    f.prev? (2 * (k + 1) + 1) = some (2 * k + 1) := by
  refine TokenStream.prev?_eq_some (by omega) (h.isTrivial_word hw) ?_
  intro j hlo hhi
  rw [show j = 2 * (k + 1) by omega]
  exact h.isTrivial_separator hnext

/-- Before the first word stands the opening tag. -/
theorem prev?_first (h : Holds f ws) (hws : 0 < ws.length) : f.prev? 1 = some 0 := by
  refine TokenStream.prev?_eq_some (by omega) ?_ (by omega)
  rw [h.separator (k := 0) hws]
  rfl

/-- Every token is a word or stands before one. -/
theorem cases (h : Holds f ws) {i : Nat} (hi : i < f.size) :
    (∃ k < ws.length, i = 2 * k) ∨ ∃ k w, ws[k]? = some w ∧ i = 2 * k + 1 := by
  have hsize := h.size
  obtain ⟨k, rfl | rfl⟩ : ∃ k, i = 2 * k ∨ i = 2 * k + 1 := ⟨i / 2, by omega⟩
  · exact .inl ⟨k, by omega, rfl⟩
  · exact .inr ⟨k, ws[k], List.getElem?_eq_getElem (by omega), rfl⟩

end Holds

/-! ## The groups of a program -/

/-- No part of a bracket stands before a word. -/
theorem pairBrackets_separator (opened : List Token) (k : Nat) (rest : List Token) :
    pairBrackets opened (separator k :: rest) = pairBrackets opened rest := by
  cases k <;> rfl

theorem pairBrackets_skip {as : List Word} (has : ∀ w ∈ as, w.kind.closer? = none ∧ w.kind.closing? = none)
    (opened : List Token) (k : Nat) (bs : List Word) :
    pairBrackets opened (tokensFrom k (as ++ bs)) = pairBrackets opened (tokensFrom (k + as.length) bs) := by
  induction as generalizing k with
  | nil => rfl
  | cons w as ih =>
      obtain ⟨hcloser, hclosing⟩ := has w (List.mem_cons_self ..)
      rw [List.cons_append, tokensFrom, pairBrackets_separator, pairBrackets]
      simp only [Word.token, hcloser, hclosing]
      rw [ih (fun v hv => has v (List.mem_cons_of_mem w hv)) (k + 1), List.length_cons, Nat.add_assoc,
        Nat.add_comm 1]

/-- A word that opens a group. -/
theorem pairBrackets_open (hw : w.kind.closer?.isSome) (opened : List Token) (k : Nat) (ws : List Word) :
    pairBrackets opened (tokensFrom k (w :: ws)) = pairBrackets (w.token k :: opened) (tokensFrom (k + 1) ws) := by
  obtain ⟨c, hc⟩ := Option.isSome_iff_exists.mp hw
  rw [tokensFrom, pairBrackets_separator, pairBrackets]
  simp only [Word.token, hc]

/-- A word that closes the innermost group. -/
theorem pairBrackets_close {opener : Word} (hcloser : w.kind.closer? = none)
    (hsort : opener.kind.closer? = w.kind.closing?) (hclosing : w.kind.closing?.isSome) (opened : List Token)
    (j k : Nat) (ws : List Word) :
    pairBrackets (opener.token j :: opened) (tokensFrom k (w :: ws))
      = (pairBrackets opened (tokensFrom (k + 1) ws)).map ((2 * j + 1, 2 * k + 1) :: ·) := by
  obtain ⟨c, hc⟩ := Option.isSome_iff_exists.mp hclosing
  rw [tokensFrom, pairBrackets_separator, pairBrackets]
  simp only [Word.token, hcloser, hc]
  exact if_pos (hsort.trans hc)

theorem Word.not_bracket (h : w.isListed ∨ w.isInner) : w.kind.closer? = none ∧ w.kind.closing? = none := by
  cases w with
  | mark m =>
      cases m with
      | operator o => cases o <;> exact ⟨rfl, rfl⟩
      | parenOpen | parenClose | braceOpen | braceClose => simp [Word.isListed, Word.isInner] at h
      | comma | equals | semicolon => exact ⟨rfl, rfl⟩
  | _ => exact ⟨rfl, rfl⟩

theorem getElem?_of_drop {rest : List Word} {k : Nat} (h : ws.drop k = w :: rest) :
    ws[k]? = some w ∧ ws.drop (k + 1) = rest := by
  have hhead := congrArg List.head? h
  have htail := congrArg List.tail h
  rw [List.head?_drop] at hhead
  rw [List.tail_drop] at htail
  exact ⟨hhead, htail⟩

namespace Program

variable (p : Program)

/-- The number of the word that closes the parameter list. -/
def paramsEnd : Nat := 3 + (paramWords p.params).length

/-- The number of the word that opens the body. -/
def bodyStart : Nat := p.paramsEnd + 1

/-- The number of the word that closes the body, the last one. -/
def bodyEnd : Nat := p.bodyStart + 1 + p.bodyWords.length

theorem words_eq_cons : p.words = .function :: .name p.name :: .mark .parenOpen :: (paramWords p.params
    ++ .mark .parenClose :: .mark .braceOpen :: (p.bodyWords ++ [.mark .braceClose])) := by
  simp [words]

theorem length_words : p.words.length = p.bodyEnd + 1 := by
  simp [words_eq_cons, bodyEnd, bodyStart, paramsEnd]
  omega

theorem drop_params : p.words.drop 3 = paramWords p.params
    ++ .mark .parenClose :: .mark .braceOpen :: (p.bodyWords ++ [.mark .braceClose]) := by
  rw [words_eq_cons]
  rfl

theorem drop_paramsEnd : p.words.drop p.paramsEnd
    = .mark .parenClose :: .mark .braceOpen :: (p.bodyWords ++ [.mark .braceClose]) := by
  rw [paramsEnd, ← List.drop_drop, drop_params, List.drop_left]

theorem drop_bodyStart : p.words.drop p.bodyStart
    = .mark .braceOpen :: (p.bodyWords ++ [.mark .braceClose]) := by
  rw [bodyStart, ← List.drop_drop, drop_paramsEnd]
  rfl

theorem drop_bodyEnd : p.words.drop p.bodyEnd = [.mark .braceClose] := by
  rw [bodyEnd, ← List.drop_drop, ← List.drop_drop, drop_bodyStart]
  exact List.drop_left

/-- **The groups of a program:** its parameter list and its body. -/
theorem pairBrackets_words : pairBrackets [] (tokensFrom 0 p.words)
    = .ok [(5, 2 * p.paramsEnd + 1), (2 * p.bodyStart + 1, 2 * p.bodyEnd + 1)] := by
  have hheader : ∀ w ∈ [Word.function, .name p.name], w.kind.closer? = none ∧ w.kind.closing? = none := by
    simp [Word.kind, Kind.closer?, Kind.closing?]
  have hlisted : ∀ w ∈ paramWords p.params, w.kind.closer? = none ∧ w.kind.closing? = none :=
    fun w hw => Word.not_bracket (.inl (isListed_paramWords p.params w hw))
  have hinner : ∀ w ∈ p.bodyWords, w.kind.closer? = none ∧ w.kind.closing? = none :=
    fun w hw => Word.not_bracket (.inr (p.isInner_bodyWords w hw))
  have hwords : p.words = [.function, .name p.name] ++ .mark .parenOpen :: (paramWords p.params
      ++ .mark .parenClose :: .mark .braceOpen :: (p.bodyWords ++ [.mark .braceClose])) := p.words_eq_cons
  rw [hwords, pairBrackets_skip hheader, pairBrackets_open rfl, pairBrackets_skip hlisted,
    pairBrackets_close rfl rfl rfl, pairBrackets_open rfl, pairBrackets_skip hinner,
    pairBrackets_close rfl rfl rfl]
  rfl

theorem words_bodyStart : p.words[p.bodyStart]? = some (.mark .braceOpen) :=
  (getElem?_of_drop p.drop_bodyStart).1

/-- The one function keyword is the first word. -/
theorem eq_zero_of_function {k : Nat} (h : p.words[k]? = some .function) : k = 0 := by
  obtain ⟨ws, hwords, hws⟩ := p.words_eq
  rw [hwords] at h
  match k with
  | 0 => rfl
  | 1 => cases h
  | k + 2 => cases hws _ (List.mem_of_getElem? h)

end Program

/-! ## The file of a program -/

section Parse

variable {p : Program} {f : TokenStream} (hf : Holds f p.words)
include hf

theorem Holds.isChar_iff {k : Nat} {m : Mark} (hw : p.words[k]? = some (.mark m)) {c : Char} :
    f.isChar (2 * k + 1) c ↔ m.char = c := by
  rw [TokenStream.isChar_iff, hf.kind hw]
  simp [Word.kind]

/-- There is no class in a program. -/
theorem classes_of_holds : f.classes = .ok [] := by
  have hnone : (List.range f.size).filter (fun i =>
      TokenStream.isClassKeyword (f.kind i) && !f.prevIs i .doubleColon) = [] := by
    rw [List.filter_eq_nil_iff]
    intro i hi
    have hkind : TokenStream.isClassKeyword (f.kind i) = false := by
      rcases hf.cases (List.mem_range.mp hi) with ⟨k, hk, rfl⟩ | ⟨k, w, hw, rfl⟩
      · rw [TokenStream.kind, hf.separator hk]
        cases k <;> rfl
      · rw [hf.kind hw]
        cases w <;> rfl
    simp [hkind]
  rw [TokenStream.classes, hnone]
  rfl

/-- The one function is at the first word. -/
theorem filter_declaresFunction : (List.range f.size).filter f.declaresFunction = [1] := by
  have hpos : 0 < p.words.length := by
    rw [p.length_words]
    omega
  have hsize : 1 < f.size := by
    rw [hf.size]
    omega
  have hfunction : ∀ i ∈ List.range f.size, f.declaresFunction i = (i == 1) := by
    intro i hi
    rcases hf.cases (List.mem_range.mp hi) with ⟨k, hk, rfl⟩ | ⟨k, w, hw, rfl⟩
    · have hkind : (f.kind (2 * k) == .keyword .functionWord) = false := by
        rw [TokenStream.kind, hf.separator hk]
        cases k <;> rfl
      rw [TokenStream.declaresFunction, hkind, Bool.false_and]
      symm
      rw [beq_eq_false_iff_ne]
      omega
    · rw [TokenStream.declaresFunction, hf.kind hw]
      by_cases hfirst : k = 0
      · subst hfirst
        obtain rfl : w = .function := by simpa [p.words_eq_cons] using hw.symm
        rw [TokenStream.prevIs, hf.prev?_first hpos, Option.any_some, TokenStream.kind,
          hf.separator (k := 0) hpos]
        rfl
      · have hother : (w.kind == .keyword .functionWord) = false := by
          cases w with
          | function => exact absurd (p.eq_zero_of_function hw) hfirst
          | _ => rfl
        rw [hother, Bool.false_and]
        symm
        rw [beq_eq_false_iff_ne]
        omega
  rw [List.filter_congr hfunction, List.filter_beq, List.nodup_range.count, if_pos (List.mem_range.mpr hsize)]
  rfl

/-- The parameters of the function open at the third word. -/
theorem functionParen?_of_holds : f.functionName? 1 = some 3 ∧ f.functionParen? 1 = some 5 := by
  have hname : p.words[1]? = some (.name p.name) := by simp [p.words_eq_cons]
  have hparen : p.words[2]? = some (.mark .parenOpen) := by simp [p.words_eq_cons]
  have hafter : f.afterFunctionKeyword? 1 = some 3 := by
    have hchar : f.isChar 3 '&' = false := by
      rw [← Bool.not_eq_true, TokenStream.isChar_iff, show (3 : Nat) = 2 * 1 + 1 from rfl, hf.kind hname]
      simp [Word.kind]
    rw [TokenStream.afterFunctionKeyword?, show (1 : Nat) = 2 * 0 + 1 from rfl, hf.next? hname]
    simp [hchar]
  have hfunction : f.functionName? 1 = some 3 := by
    rw [TokenStream.functionName?, hafter, Option.filter_some, show (3 : Nat) = 2 * 1 + 1 from rfl, hf.kind hname]
    rfl
  refine ⟨hfunction, ?_⟩
  rw [TokenStream.functionParen?, hfunction]
  exact hf.next? hparen

end Parse

/-- A stream with the words and the groups of a program. -/
structure IsStreamOf (f : TokenStream) (p : Program) : Prop where
  holds : Holds f p.words
  closer : ∀ {i k : Nat}, f.closer? i = some k
    ↔ (i, k) ∈ [(5, 2 * p.paramsEnd + 1), (2 * p.bodyStart + 1, 2 * p.bodyEnd + 1)]

namespace IsStreamOf

variable {f : TokenStream} {p : Program}

theorem skipGroup_params (h : IsStreamOf f p) : f.skipGroup 5 = 2 * p.paramsEnd + 1 :=
  TokenStream.skipGroup_of_closer (h.closer.mpr (by simp))

theorem skipGroup_body (h : IsStreamOf f p) : f.skipGroup (2 * p.bodyStart + 1) = 2 * p.bodyEnd + 1 :=
  TokenStream.skipGroup_of_closer (h.closer.mpr (by simp))

/-- Only the parameter list and the body are groups. -/
theorem skipGroup_other (h : IsStreamOf f p) {i : Nat} (hparams : i ≠ 5) (hbody : i ≠ 2 * p.bodyStart + 1) :
    f.skipGroup i = i := by
  refine TokenStream.skipGroup_of_none (Option.eq_none_iff_forall_ne_some.mpr ?_)
  intro k hk
  simp [h.closer, hparams, hbody] at hk

/-- After the parameter list comes the body. -/
theorem next?_paramsEnd (h : IsStreamOf f p) : f.next? (2 * p.paramsEnd + 1) = some (2 * p.bodyStart + 1) :=
  h.holds.next? p.words_bodyStart

theorem kind_bodyStart (h : IsStreamOf f p) : f.kind (2 * p.bodyStart + 1) = .char '\x7b' :=
  h.holds.kind p.words_bodyStart

theorem headerEnd? (h : IsStreamOf f p) : f.headerEnd? 5 = some (2 * p.bodyStart + 1) := by
  have hcolon : f.isChar (2 * p.bodyStart + 1) ':' = false := by
    rw [← Bool.not_eq_true, TokenStream.isChar_iff, h.kind_bodyStart]
    decide
  have hbrace : f.isCharOf (2 * p.bodyStart + 1) ['\x7b', ';'] = true :=
    TokenStream.isCharOf_iff.mpr ⟨'\x7b', by simp, h.kind_bodyStart⟩
  simp [TokenStream.headerEnd?, h.skipGroup_params, h.next?_paramsEnd, h.kind_bodyStart, hcolon, hbrace]

/-- The function of a program is well formed. -/
theorem functions (h : IsStreamOf f p) : ∃ d, f.functions [] = .ok [d] := by
  have hparen : f.isChar 5 '(' = true := by
    have hword : p.words[2]? = some (.mark .parenOpen) := by simp [p.words_eq_cons]
    rw [TokenStream.isChar_iff, show (5 : Nat) = 2 * 2 + 1 from rfl, h.holds.kind hword]
    rfl
  have hdecl : ∃ d, f.functionAtKeyword [] 1 = .ok d := by
    simp [TokenStream.functionAtKeyword, (functionParen?_of_holds h.holds).2, hparen, h.headerEnd?]
  obtain ⟨d, hd⟩ := hdecl
  refine ⟨d, ?_⟩
  rw [TokenStream.functions, filter_declaresFunction h.holds, List.mapM_cons, hd]
  rfl

end IsStreamOf

/-- A parsed file of a program: it has no classes. -/
structure IsFileOf (file : SourceFile) (p : Program) : Prop where
  stream : IsStreamOf file.toTokenStream p
  classes : file.classes = []

/-- A file is parsed part by part. -/
theorem ofTokens_of_ok {name : String} {tokens : List Token} {stream : TokenStream} {classes : List ClassDecl}
    {functions : List FunctionDecl} (hstream : TokenStream.ofTokens tokens = .ok stream)
    (hclasses : stream.classes = .ok classes) (hfunctions : stream.functions classes = .ok functions) :
    SourceFile.ofTokens name tokens = .ok { stream with name, classes, functions } := by
  rw [SourceFile.ofTokens, hstream]
  show (stream.classes >>= fun classes => _) = _
  rw [hclasses]
  show (stream.functions classes >>= fun functions => _) = _
  rw [hfunctions]
  rfl

/-- **A program can be parsed.** -/
theorem Program.exists_file (p : Program) (name : String) :
    ∃ file, SourceFile.ofSource name p.text = .ok file ∧ IsFileOf file p := by
  let stream : TokenStream := ⟨(tokensFrom 0 p.words).toArray, partnerTable (tokensFrom 0 p.words).length
    [(5, 2 * p.paramsEnd + 1), (2 * p.bodyStart + 1, 2 * p.bodyEnd + 1)]⟩
  have hstream : TokenStream.ofTokens (tokensFrom 0 p.words) = .ok stream := by
    rw [TokenStream.ofTokens, p.pairBrackets_words]
    rfl
  have hof : IsStreamOf stream p :=
    ⟨holds_tokensFrom p.words _, TokenStream.closer?_iff_mem (tokenize_numbered p.tokenize_text) p.pairBrackets_words⟩
  obtain ⟨d, hd⟩ := hof.functions
  refine ⟨{ stream with name, classes := [], functions := [d] }, ?_, hof, rfl⟩
  rw [SourceFile.ofSource, p.tokenize_text]
  exact ofTokens_of_ok hstream (classes_of_holds hof.holds) hd

end StraightLine

end Unassigned
