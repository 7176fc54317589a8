import Unassigned.Proofs.Scanning
import Unassigned.Proofs.StraightLine.Program

/-!
# `Proofs.StraightLine.Tokens` — the tokens of a straight-line program

Each word of a program is read as one lexeme, since a blank or the end of the text follows it
(`Word.item_read`). So the tokens are the words in order, with the opening tag before the first of them and
a blank before each other (`tokenize_text`).
-/

namespace Unassigned

namespace StraightLine

variable {p : Char → Bool} {cs tail : List Char} {c : Char} {w : Word} {before : Preceding}

/-! ## Words end before blanks -/

/-- What follows a word: nothing, or a blank. -/
def EndsWord (tail : List Char) : Prop :=
  tail = [] ∨ ∃ rest, tail = ' ' :: rest

theorem runLength_of_all (hcs : ∀ c ∈ cs, p c) (hblank : p ' ' = false) (htail : EndsWord tail) :
    runLength p (cs ++ tail) = cs.length := by
  have hnone : tail.takeWhile p = [] := by
    rcases htail with rfl | ⟨rest, rfl⟩
    · rfl
    · simp [hblank]
  rw [runLength, List.takeWhile_append_of_pos hcs, hnone, List.append_nil]

theorem ne_of_class {d : Char} (hc : p c) (hd : p d = false) : c ≠ d := by
  rintro rfl
  rw [hd] at hc
  cases hc

theorem not_isCodeBlank_of_class (hc : p c) (hblanks : [' ', '\t', '\r', '\n'].any p = false) :
    isCodeBlank c = false := by
  have hne : ∀ d ∈ [' ', '\t', '\r', '\n'], c ≠ d := by
    intro d hd
    exact ne_of_class hc (Bool.eq_false_iff.mpr (List.any_eq_false.mp hblanks d hd))
  simp at hne
  simp [isCodeBlank, hne]

theorem not_isDigit_of_isNameStart (h : isNameStart c) : c.isDigit = false := by
  delta isNameStart Char.isAlpha Char.isUpper Char.isLower at h
  simp only [Char.isDigit, Bool.or_eq_true,
    Bool.and_eq_true, decide_eq_true_eq, beq_iff_eq, Bool.and_eq_false_iff, decide_eq_false_iff_not,
    UInt32.le_iff_toNat_le, ge_iff_le] at h ⊢
  rcases h with (h | h) | h
  · simp at h ⊢
    omega
  · subst h
    decide
  · simp at h ⊢
    omega

/-! ## Items -/

/-- An identifier that is no variable. -/
theorem item_read_identifier (x : Identifier) (htail : EndsWord tail) :
    ∃ c cs, x.chars = c :: cs ∧ isCodeBlank c = false
      ∧ Item.read c (cs ++ tail) = .lexeme .word cs.length := by
  obtain ⟨chars, hstart, hall⟩ := x
  cases chars with
  | nil => cases hstart
  | cons c cs =>
      have hc : isNameStart c := hstart
      have hblank : isCodeBlank c = false := not_isCodeBlank_of_class hc (by decide)
      have hlength : runLength isNameChar (cs ++ tail) = cs.length :=
        runLength_of_all (fun d hd => hall d (List.mem_cons_of_mem c hd)) (by decide) htail
      refine ⟨c, cs, rfl, hblank, ?_⟩
      have hslash : c ≠ '/' := ne_of_class hc (by decide)
      have hhash : c ≠ '#' := ne_of_class hc (by decide)
      have hdollar : c ≠ '$' := ne_of_class hc (by decide)
      have hpoint : c ≠ '.' := ne_of_class hc (by decide)
      have hdigit := not_isDigit_of_isNameStart hc
      simp [Item.read, hblank, hslash, hhash, hdollar, hpoint, hdigit, hc, hlength]

/-- A variable. -/
theorem item_read_variable (x : Identifier) (htail : EndsWord tail) :
    Item.read '$' (x.chars ++ tail) = .lexeme (.of .var) x.chars.length := by
  have hstart : startsIn isNameStart (x.chars ++ tail) := by
    obtain ⟨chars, hstart, hall⟩ := x
    cases chars with
    | nil => cases hstart
    | cons c cs => exact hstart
  have hlength : runLength isNameChar (x.chars ++ tail) = x.chars.length :=
    runLength_of_all x.all (by decide) htail
  have hblank : isCodeBlank '$' = false := by decide
  simp [Item.read, hblank, hstart, hlength]

theorem decimalLength_of_digits (hcs : ∀ d ∈ cs, d.isDigit) (htail : EndsWord tail) :
    decimalLength (cs ++ tail) = cs.length := by
  have hlength : runLength isDigitOrUnderscore (cs ++ tail) = cs.length :=
    runLength_of_all (fun d hd => by simp [isDigitOrUnderscore, hcs d hd]) (by decide) htail
  simp only [decimalLength, hlength, List.drop_left]
  rcases htail with rfl | ⟨rest, rfl⟩ <;> simp [exponentLength]

theorem numberLength_of_digits (hcs : ∀ d ∈ cs, d.isDigit) (htail : EndsWord tail) :
    numberLength c (cs ++ tail) = cs.length := by
  rw [← decimalLength_of_digits hcs htail]
  -- no letter follows the first digit, so this is no hexadecimal or binary number
  have hletters : ∀ d rest, cs ++ tail = d :: rest → d ≠ 'x' ∧ d ≠ 'X' ∧ d ≠ 'b' ∧ d ≠ 'B' := by
    intro d rest hd
    cases cs with
    | nil =>
        rcases htail with rfl | ⟨rest, rfl⟩
        · cases hd
        · cases hd
          decide
    | cons e cs =>
        cases hd
        have hdigit := hcs d (List.mem_cons_self ..)
        exact ⟨ne_of_class hdigit (by decide), ne_of_class hdigit (by decide), ne_of_class hdigit (by decide),
          ne_of_class hdigit (by decide)⟩
  unfold numberLength
  split
  · next d rest hd =>
      obtain ⟨hx, hX, hb, hB⟩ := hletters d rest hd
      simp [hx, hX, hb, hB]
  · next hnil =>
      rw [hnil]
      rfl

theorem numberKind_of_digits (hcs : ∀ d ∈ cs, d.isDigit) : numberKind cs = .integer := by
  have hnot : ∀ c, c.isDigit = false → c ∉ cs := by
    intro c hc hmem
    rw [hcs c hmem] at hc
    cases hc
  simp [numberKind, hnot '.' (by decide), hnot 'e' (by decide), hnot 'E' (by decide)]

/-- An integer. -/
theorem item_read_digits (n : Digits) (htail : EndsWord tail) :
    ∃ c cs, n.chars = c :: cs ∧ isCodeBlank c = false
      ∧ Item.read c (cs ++ tail) = .lexeme (.of .integer) cs.length := by
  obtain ⟨chars, hne, hall⟩ := n
  cases chars with
  | nil => exact absurd rfl hne
  | cons c cs =>
      have hc : c.isDigit := hall c (List.mem_cons_self ..)
      have hblank : isCodeBlank c = false := not_isCodeBlank_of_class hc (by decide)
      refine ⟨c, cs, rfl, hblank, ?_⟩
      have hslash : c ≠ '/' := ne_of_class hc (by decide)
      have hhash : c ≠ '#' := ne_of_class hc (by decide)
      have hdollar : c ≠ '$' := ne_of_class hc (by decide)
      have hpoint : c ≠ '.' := ne_of_class hc (by decide)
      have hlength := numberLength_of_digits (c := c) (fun d hd => hall d (List.mem_cons_of_mem c hd)) htail
      simp [Item.read, Item.number, hblank, hslash, hhash, hdollar, hpoint, hc, hlength,
        numberKind_of_digits hall]

theorem operatorAt?_mark (m : Mark) (htail : EndsWord tail) : operatorAt? (m.char :: tail) = none := by
  rcases htail with rfl | ⟨rest, rfl⟩
  · cases m with
    | operator o => cases o <;> decide
    | _ => decide
  · cases m with
    | operator o => cases o <;> simp [operatorAt?, operatorTable, Mark.char]
    | _ => simp [operatorAt?, operatorTable, Mark.char]

/-- A mark is a lexeme of its own. -/
theorem item_read_mark (m : Mark) (htail : EndsWord tail) :
    isCodeBlank m.char = false ∧ Item.read m.char tail = .lexeme (.of (.char m.char)) 0 := by
  have hclass : isCodeBlank m.char = false ∧ m.char ≠ '\\' ∧ Item.read m.char tail = .punctuation m.char tail := by
    cases m with
    | operator o => cases o <;> exact ⟨by decide, by decide, rfl⟩
    | _ => exact ⟨by decide, by decide, rfl⟩
  obtain ⟨hblank, hbackslash, hread⟩ := hclass
  refine ⟨hblank, ?_⟩
  rw [hread, Item.punctuation, operatorAt?_mark m htail]
  exact if_neg hbackslash

/-- What a word looks like without its context. -/
def Word.shape : Word → Shape
  | .function | .echo | .name _ => .word
  | .param _ | .target _ | .read _ => .of .var
  | .integer _ => .of .integer
  | .mark m => .of (.char m.char)

/-- **A word is one lexeme.** -/
theorem Word.item_read (w : Word) (htail : EndsWord tail) :
    ∃ c cs, w.text.toList = c :: cs ∧ isCodeBlank c = false
      ∧ Item.read c (cs ++ tail) = .lexeme w.shape cs.length := by
  cases w with
  | function => exact item_read_identifier ⟨"function".toList, by decide, List.all_eq_true.mp (by decide)⟩ htail
  | echo => exact item_read_identifier ⟨"echo".toList, by decide, List.all_eq_true.mp (by decide)⟩ htail
  | name x =>
      rw [Word.text, String.toList_ofList]
      exact item_read_identifier x htail
  | param x | target x | read x =>
      rw [Word.text, Identifier.variable, String.toList_ofList]
      exact ⟨'$', x.chars, rfl, by decide, item_read_variable x htail⟩
  | integer n =>
      rw [Word.text, String.toList_ofList]
      exact item_read_digits n htail
  | mark m =>
      rw [Word.text, String.toList_singleton]
      exact ⟨m.char, [], rfl, item_read_mark m htail⟩

/-! ## Lexemes -/

/-- The characters before word number `k`: the opening tag or a blank. -/
def separatorChars : Nat → List Char
  | 0 => ['<', '?', 'p', 'h', 'p', ' ']
  | _ + 1 => [' ']

def separatorKind : Nat → Kind
  | 0 => .openTag
  | _ + 1 => .whitespace

/-- The text of words from number `k` on, each with what stands before it. -/
def textFrom (k : Nat) : List Word → List Char
  | [] => []
  | w :: rest => separatorChars k ++ (w.text.toList ++ textFrom (k + 1) rest)

/-- The lexemes of words from number `k` on. -/
def lexemesFrom (k : Nat) : List Word → List Lexeme
  | [] => []
  | w :: rest =>
    ⟨.of (separatorKind k), separatorChars k⟩ :: ⟨w.shape, w.text.toList⟩ :: lexemesFrom (k + 1) rest

theorem endsWord_textFrom (k : Nat) (ws : List Word) : EndsWord (textFrom (k + 1) ws) := by
  cases ws with
  | nil => exact .inl rfl
  | cons w ws => exact .inr ⟨w.text.toList ++ textFrom (k + 2) ws, rfl⟩

/-- A word is read, and then what follows it. -/
theorem codeReads_word {ws : List Word} {k : Nat} {read read' : List Lexeme}
    (h : CodeReads .file (⟨w.shape, w.text.toList⟩ :: read) (textFrom (k + 1) ws) read' []) :
    CodeReads .file read (w.text.toList ++ textFrom (k + 1) ws) read' [] := by
  obtain ⟨c, cs, htext, _, hitem⟩ := w.item_read (endsWord_textFrom k ws)
  rw [htext] at h ⊢
  rw [List.cons_append]
  refine .of_lexeme hitem rfl ?_
  rwa [List.take_left, List.drop_left]

theorem codeReads_textFrom (ws : List Word) (k : Nat) (read : List Lexeme) :
    CodeReads .file read (textFrom (k + 1) ws) ((lexemesFrom (k + 1) ws).reverse ++ read) [] := by
  induction ws generalizing k read with
  | nil => exact ⟨(read, ⟨[], Nat.le_refl _⟩), by simp only [textFrom, scanCode], rfl, rfl⟩
  | cons w ws ih =>
      have hword := codeReads_word (ih (k + 1) (⟨w.shape, w.text.toList⟩ :: ⟨.of .whitespace, [' ']⟩ :: read))
      obtain ⟨c, cs, htext, hblank, _⟩ := w.item_read (endsWord_textFrom (k + 1) ws)
      have hspace : Item.read ' ' (w.text.toList ++ textFrom (k + 2) ws) = .lexeme (.of .whitespace) 0 := by
        rw [htext, Item.read, if_pos (by decide)]
        simp [runLength, hblank]
      have hlexemes : (lexemesFrom (k + 1) (w :: ws)).reverse ++ read = (lexemesFrom (k + 2) ws).reverse
          ++ (⟨w.shape, w.text.toList⟩ :: ⟨.of .whitespace, [' ']⟩ :: read) := by
        simp [lexemesFrom, separatorKind, separatorChars]
      rw [hlexemes]
      refine CodeReads.of_lexeme hspace ?_ hword
      rfl

/-- **The lexemes of a program** are its words and what stands before them. -/
theorem lexemes_textFrom (w : Word) (ws : List Word) :
    lexemes (textFrom 0 (w :: ws)) = .ok (lexemesFrom 0 (w :: ws)) := by
  have hcode := codeReads_word (codeReads_textFrom ws 0
    (⟨w.shape, w.text.toList⟩ :: [⟨.of .openTag, separatorChars 0⟩]))
  have hscan : scanFile [] (textFrom 0 (w :: ws)) = .ok (lexemesFrom 0 (w :: ws)).reverse := by
    have hlexemes : (lexemesFrom 0 (w :: ws)).reverse = (lexemesFrom 1 ws).reverse
        ++ (⟨w.shape, w.text.toList⟩ :: [⟨.of .openTag, separatorChars 0⟩]) := by
      simp [lexemesFrom, separatorKind]
    rw [hlexemes]
    exact scanFile_php hcode
  rw [lexemes, hscan, Except.map, List.reverse_reverse]

theorem intercalate_eq_textFrom (w : Word) (ws : List Word) (k : Nat) :
    [' '].intercalate (w.text.toList :: ws.map fun v => v.text.toList) = w.text.toList ++ textFrom (k + 1) ws := by
  induction ws generalizing w k with
  | nil => simp [textFrom]
  | cons v ws ih =>
      rw [List.map_cons, List.intercalate_cons_cons, ih v (k + 1), List.append_assoc]
      rfl

/-- The text of a program is that of its words. -/
theorem Program.toList_text (p : Program) : p.text.toList = textFrom 0 p.words := by
  obtain ⟨ws, hws⟩ : ∃ ws, p.words = .function :: ws := ⟨_, rfl⟩
  rw [Program.text, String.toList_append, String.toList_intercalate, List.map_map, hws]
  show _ ++ [' '].intercalate (Word.function.text.toList :: ws.map fun v => v.text.toList) = _
  rw [intercalate_eq_textFrom _ _ 0]
  rfl

/-! ## Tokens -/

/-- What stands before word number `k`, as a token. -/
def separator (k : Nat) : Token :=
  ⟨separatorKind k, String.ofList (separatorChars k), 1, 2 * k⟩

/-- The tokens of words from number `k` on. -/
def tokensFrom (k : Nat) : List Word → List Token
  | [] => []
  | w :: rest => separator k :: w.token k :: tokensFrom (k + 1) rest

/-- A word that is a keyword or a name depending on its context, or changes the context of such a word. -/
def Word.isHeading : Word → Bool
  | .function | .name _ => true
  | _ => false

theorem lineFeeds_eq_zero (hcs : ∀ c ∈ cs, p c) (hfeed : p '\n' = false) : lineFeeds cs = 0 := by
  rw [lineFeeds, List.count_eq_zero]
  intro hmem
  rw [hcs _ hmem] at hfeed
  cases hfeed

theorem Word.lineFeeds_text (w : Word) : lineFeeds w.text.toList = 0 := by
  cases w with
  | function | echo => decide
  | name x =>
      rw [Word.text, String.toList_ofList]
      exact lineFeeds_eq_zero x.all (by decide)
  | param x | target x | read x =>
      rw [Word.text, Identifier.variable, String.toList_ofList, lineFeeds, List.count_cons_of_ne (by decide)]
      exact lineFeeds_eq_zero x.all (by decide)
  | integer n =>
      rw [Word.text, String.toList_ofList]
      exact lineFeeds_eq_zero n.all (by decide)
  | mark m =>
      cases m with
      | operator o => cases o <;> decide
      | _ => decide

theorem lineFeeds_separatorChars (k : Nat) : lineFeeds (separatorChars k) = 0 := by
  cases k <;> rfl

/-- Words of the body are of the same kind in all contexts that are no header. -/
theorem Word.kind_lexeme (hw : w.isHeading = false) (hbefore : before.namesHere = false) :
    (Lexeme.mk w.shape w.text.toList).kind before = w.kind
      ∧ (before.push w.kind).namesHere = false := by
  cases w with
  | function | name x => cases hw
  | echo =>
      have hword : Keyword.ofText? (String.ofList "echo".toList) = some .echoWord := by decide
      refine ⟨?_, rfl⟩
      simp only [Lexeme.kind, Word.shape, Word.text, hword, hbefore]
      rfl
  | param x | target x | read x => exact ⟨rfl, rfl⟩
  | integer n => exact ⟨rfl, rfl⟩
  | mark m =>
      refine ⟨rfl, ?_⟩
      cases m with
      | operator o => cases o <;> rfl
      | _ => rfl

/-- What stands before a word does not change the context of words. -/
theorem namesHere_push_separator (hbefore : before.namesHere = false) (k : Nat) :
    (before.push (separatorKind k)).namesHere = false := by
  cases k with
  | zero => rfl
  | succ k => exact hbefore

/-- The two tokens of a word, if it is of its own kind in its context. -/
theorem ofLexemes_cons {k : Nat}
    (hkind : (Lexeme.mk w.shape w.text.toList).kind (before.push (separatorKind k)) = w.kind) (ws : List Word) :
    Token.ofLexemes before 1 (2 * k) (lexemesFrom k (w :: ws))
      = separator k :: w.token k
        :: Token.ofLexemes ((before.push (separatorKind k)).push w.kind) 1 (2 * (k + 1)) (lexemesFrom (k + 1) ws) := by
  show _ :: _ :: Token.ofLexemes _ (1 + lineFeeds (separatorChars k) + lineFeeds w.text.toList) _ _ = _
  rw [lineFeeds_separatorChars, w.lineFeeds_text]
  congr 1
  show Token.mk ((Lexeme.mk w.shape w.text.toList).kind (before.push (separatorKind k)))
    (String.ofList w.text.toList) _ _ :: Token.ofLexemes ((before.push (separatorKind k)).push
      ((Lexeme.mk w.shape w.text.toList).kind (before.push (separatorKind k)))) _ _ _ = _
  rw [hkind, String.ofList_toList]
  rfl

theorem ofLexemes_lexemesFrom {ws : List Word} (hws : ∀ w ∈ ws, w.isHeading = false) (k : Nat)
    (hbefore : before.namesHere = false) : Token.ofLexemes before 1 (2 * k) (lexemesFrom k ws) = tokensFrom k ws := by
  induction ws generalizing k before with
  | nil => rfl
  | cons w ws ih =>
      obtain ⟨hkind, hnext⟩ := Word.kind_lexeme (hws w (List.mem_cons_self ..))
        (namesHere_push_separator hbefore k)
      rw [ofLexemes_cons hkind, ih (fun v hv => hws v (List.mem_cons_of_mem w hv)) (k + 1) hnext]
      rfl

/-- The name of a function is a name, even if it spells a keyword. -/
theorem kind_name (x : Identifier) (hbefore : before.namesHere) :
    (Lexeme.mk (Word.name x).shape (Word.name x).text.toList).kind before = .name := by
  simp only [Lexeme.kind, Word.shape, hbefore]
  split <;> rfl

/-- Behind the name of the function there are only words of one kind each. -/
theorem Program.words_eq (p : Program) :
    ∃ ws, p.words = .function :: .name p.name :: ws ∧ ∀ w ∈ ws, w.isHeading = false := by
  have hlisted : ∀ w ∈ paramWords p.params, w.isHeading = false := by
    intro w hw
    have := isListed_paramWords p.params w hw
    cases w <;> simp_all [Word.isHeading, Word.isListed]
  have hinner : ∀ w ∈ p.bodyWords, w.isHeading = false := by
    intro w hw
    have := p.isInner_bodyWords w hw
    cases w <;> simp_all [Word.isHeading, Word.isInner]
  refine ⟨.mark .parenOpen :: (paramWords p.params ++ .mark .parenClose :: .mark .braceOpen
    :: (p.bodyWords ++ [.mark .braceClose])), by simp [Program.words], ?_⟩
  simpa [Word.isHeading, or_imp, forall_and] using ⟨hlisted, hinner⟩

/-- **The tokens of a program** are its words, with the opening tag or a blank before each. -/
theorem Program.tokenize_text (p : Program) : tokenize p.text = .ok (tokensFrom 0 p.words) := by
  obtain ⟨ws, hwords, hws⟩ := p.words_eq
  have hfunction : (Lexeme.mk Word.function.shape Word.function.text.toList).kind
      (Preceding.push {} (separatorKind 0)) = Word.function.kind := by
    decide
  rw [tokenize, p.toList_text, hwords, lexemes_textFrom]
  show Except.ok _ = _
  rw [ofLexemes_cons hfunction, ofLexemes_cons (kind_name p.name rfl), ofLexemes_lexemesFrom hws 2 rfl]
  rfl

end StraightLine

end Unassigned
