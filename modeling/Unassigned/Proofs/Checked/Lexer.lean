import Unassigned.Token.Lexer

/-!
# `Proofs.Checked.Lexer` — reading a source with look-ups that can fail

The scanners of a source are made again with patterns that need not match and tables that need not have an
entry (`Fault`). Where a construct relies on a match, as the part after the dollar sign of a variable in a
string does, it is asked for without a test.

No look-up fails, and what is read is the same (`tokenize_meets`).
-/

namespace Unassigned

/-- A look-up that fails. -/
inductive Fault where
  /-- A pattern that does not match at the start of a text. -/
  | noMatch (s : List Char)
  /-- A text that is not in the table of operators. -/
  | noOperator (text : String)
  /-- A character that is no quote of a string. -/
  | noQuote (c : Char)
  /-- The closing bracket of a token that opens no group. -/
  | notBracket (t : Token)
  /-- A token beyond the end of the file. -/
  | noToken (i : Nat)
  /-- The closing keyword of something that is no loop with a header. -/
  | noClosingKeyword (kind : Kind)
  /-- A scope that is not on the stack. -/
  | noScope (level : Nat)
  /-- A step that leads to a place before its own. -/
  | goesBack (i last : Nat)
  deriving DecidableEq, Repr

namespace Checked

@[simp] theorem ok_bind {α β : Type} (a : α) (next : α → Except Fault β) : (.ok a >>= next) = next a := rfl

/-- A test tells on its branch what the look-ups there rely on. -/
theorem ite_eq {α : Type} {c : Prop} [Decidable c] {x y : Except Fault α} {a b : α} (hx : c → x = .ok a)
    (hy : ¬ c → y = .ok b) : (if c then x else y) = .ok (if c then a else b) := by
  split
  · next h => exact hx h
  · next h => exact hy h

/-! ## One item of code -/

/-- The kind of an operator. -/
def operatorKind (text : String) : Except Fault Kind :=
  match operatorTable.lookup text with
  | some kind => .ok kind
  | none => .error (.noOperator text)

/-- As `plainStringLength?`. -/
def plainString (quote : Char) (s : List Char) : Except Fault (Option Nat) :=
  if ['\x22', '\x60'].contains quote then return plainStringLength? quote s else .error (.noQuote quote)

/-- As `Item.punctuation`. -/
def punctuation (c : Char) (s : List Char) : Except Fault Item :=
  match operatorAt? (c :: s) with
  | some (text, _) => return .lexeme (.of (← operatorKind text)) (text.length - 1)
  | none => return if c = '\\' then .lexeme (.of .nsSeparator) 0 else .lexeme (.of (.char c)) 0

/-- As `Item.slash`. -/
def slash (s : List Char) : Except Fault Item :=
  match s with
  | '*' :: _ | '/' :: _ => return Item.slash s
  | _ => punctuation '/' s

/-- As `Item.question`. -/
def question (s : List Char) : Except Fault Item :=
  match s with
  | '>' :: _ => return Item.question s
  | _ => punctuation '?' s

/-- As `Item.less`. -/
def less (s : List Char) : Except Fault Item :=
  match s with
  | '<' :: '<' :: rest =>
    match heredocOpening? rest with
    | some opening => return .heredoc (2 + opening.length) opening.label opening.isNowdoc
    | none => punctuation '<' s
  | _ => punctuation '<' s

/-- As `Item.read`; nothing is read at the end of a text. -/
def item : List Char → Except Fault Item
  | [] => .error (.noMatch [])
  | c :: s =>
    if isCodeBlank c then return .lexeme (.of .whitespace) (runLength isCodeBlank s)
    else if c = '/' then slash s
    else if c = '#' then return Item.hash s
    else if c = '$' ∧ startsIn isNameStart s then return .lexeme (.of .var) (runLength isNameChar s)
    else if c.isDigit ∨ (c = '.' ∧ startsIn Char.isDigit s) then return Item.number c s
    else if isNameStart c then return .lexeme .word (runLength isNameChar s)
    else if c = '\x27' then
      match singleQuotedLength? s with
      | some more => return .lexeme (.of .stringLiteral) more
      | none => return .openString
    else if c = '\x22' ∨ c = '\x60' then do
      match ← plainString c s with
      | some more => return .lexeme (.of .stringLiteral) more
      | none => return .quote
    else if c = '<' then less s
    else if c = '?' then question s
    else punctuation c s

/-- As `simpleInterpolation`; a name has to follow the dollar sign. -/
def simpleInterpolation (s : List Char) : Except Fault (List Lexeme × Nat) :=
  let name := runLength isNameChar s
  let head : Lexeme := ⟨.of .var, '$' :: s.take name⟩
  let rest := s.drop name
  if startsIn isNameStart s then
    match simpleIndex? rest with
    | some (kind, length) =>
      return ([head, ⟨.of (.char '['), ['[']⟩, ⟨.of kind, (rest.drop 1).take length⟩,
        ⟨.of (.char ']'), [']']⟩], name + length + 2)
    | none =>
      match simpleProperty? rest with
      | some (_, length) => do
        -- the pattern gives the text of the operator, the table its kind
        let kind ← operatorKind (String.ofList (rest.take length))
        let property := runLength isNameChar (rest.drop length)
        return ([head, ⟨.of kind, rest.take length⟩, ⟨.of .name, (rest.drop length).take property⟩],
          name + length + property)
      | none => return ([head], name)
  else .error (.noMatch s)

/-- The table of operators has an entry for each of them. -/
theorem operatorKind_eq {text : String} {kind : Kind} (h : (text, kind) ∈ operatorTable) :
    operatorKind text = .ok kind := by
  -- no operator stands in the table twice
  have htable : ∀ entry ∈ operatorTable, operatorTable.lookup entry.1 = some entry.2 := by decide +kernel
  rw [operatorKind, htable _ h]

theorem punctuation_eq (c : Char) (s : List Char) : punctuation c s = .ok (Item.punctuation c s) := by
  rw [punctuation, Item.punctuation]
  cases hoperator : operatorAt? (c :: s) with
  | none => rfl
  | some entry =>
      dsimp only
      rw [operatorKind_eq (List.mem_of_find?_eq_some hoperator)]
      rfl

theorem slash_eq (s : List Char) : slash s = .ok (Item.slash s) := by
  unfold slash
  split
  · rfl
  · rfl
  · next hstar hslash =>
      rw [punctuation_eq]
      unfold Item.slash
      split
      · exact absurd rfl (hstar _)
      · exact absurd rfl (hslash _)
      · rfl

theorem question_eq (s : List Char) : question s = .ok (Item.question s) := by
  unfold question
  split
  · rfl
  · next htag =>
      rw [punctuation_eq]
      unfold Item.question
      split
      · exact absurd rfl (htag _)
      · rfl

theorem less_eq (s : List Char) : less s = .ok (Item.less s) := by
  unfold less
  split
  · next rest =>
      simp only [Item.less]
      cases heredocOpening? rest with
      | none => exact punctuation_eq _ _
      | some opening => rfl
  · next hopening =>
      rw [punctuation_eq]
      unfold Item.less
      split
      · exact absurd rfl (hopening _)
      · rfl

/-- Something can be read wherever the text is not over. -/
theorem item_eq (c : Char) (s : List Char) : item (c :: s) = .ok (Item.read c s) := by
  rw [item, Item.read]
  refine ite_eq (fun _ => rfl) fun _ => ite_eq (fun _ => slash_eq s) fun _ => ite_eq (fun _ => rfl) fun _ =>
    ite_eq (fun _ => rfl) fun _ => ite_eq (fun _ => rfl) fun _ => ite_eq (fun _ => rfl) fun _ =>
    ite_eq (fun _ => ?_) fun _ => ite_eq (fun hquote => ?_) fun _ => ite_eq (fun _ => less_eq s) fun _ =>
    ite_eq (fun _ => question_eq s) fun _ => punctuation_eq c s
  · cases singleQuotedLength? s <;> rfl
  · rw [plainString, if_pos (by simpa using hquote)]
    show (match plainStringLength? c s with
      | some more => _
      | none => _) = _
    cases plainStringLength? c s <;> rfl

/-- The operator of a property is one of the table. -/
theorem operatorKind_of_simpleProperty {s : List Char} {kind : Kind} {length : Nat}
    (h : simpleProperty? s = some (kind, length)) : operatorKind (String.ofList (s.take length)) = .ok kind := by
  unfold simpleProperty? at h
  split at h
  · next harrow =>
      cases h
      obtain ⟨rest, rfl⟩ := List.isPrefixOf_iff_prefix.mp harrow.1
      show operatorKind (String.ofList ['-', '>']) = _
      exact operatorKind_eq (by decide +kernel)
  · split at h
    · next harrow =>
        cases h
        obtain ⟨rest, rfl⟩ := List.isPrefixOf_iff_prefix.mp harrow.1
        show operatorKind (String.ofList ['?', '-', '>']) = _
        exact operatorKind_eq (by decide +kernel)
    · cases h

theorem simpleInterpolation_eq {s : List Char} (h : startsIn isNameStart s) :
    simpleInterpolation s = .ok (Unassigned.simpleInterpolation s) := by
  rw [simpleInterpolation, if_pos h, Unassigned.simpleInterpolation]
  dsimp only
  cases simpleIndex? (s.drop (runLength isNameChar s)) with
  | some index => rfl
  | none =>
      cases hproperty : simpleProperty? (s.drop (runLength isNameChar s)) with
      | none => rfl
      | some property =>
          dsimp only
          rw [operatorKind_of_simpleProperty hproperty]
          rfl

/-! ## The scanners -/

/-- A scan of a source: it may run into an error of the source, and each of its look-ups may fail. -/
abbrev Lexing := ExceptT ParseError (Except Fault)

mutual

/-- As `Unassigned.scanCode`. -/
def scanCode (room : Nat) (stop : CodeEnd) (read : List Lexeme) (s : List Char) : Lexing (Scanned s) :=
  match s with
  | [] =>
    match stop with
    | .file => return (read, ⟨[], Nat.le_refl _⟩)
    | .brace _ => throw (openError .interpolation read)
  | c :: rest => do
    -- no test stands before the match: text is left
    match ← item (c :: rest) with
    | .lexeme shape more =>
      let read := ⟨shape, c :: rest.take more⟩ :: read
      match stop.after shape with
      | none => return (read, ⟨rest.drop more, length_drop_le_cons more c rest⟩)
      | some stop => Scanned.within (length_drop_le_cons more c rest) <$> scanCode room stop read (rest.drop more)
    | .closeTag more =>
      return (⟨.of .closeTag, c :: rest.take more⟩ :: read, ⟨rest.drop more, length_drop_le_cons more c rest⟩)
    | .quote =>
      let opening : Lexeme := ⟨.of (.char c), [c]⟩
      let (read, body) ← scanString room (.quote c) (opening :: read) [] rest
      match h : body.1 with
      | [] => throw (openError .string read)
      | _ :: after =>
        have hle : after.length ≤ rest.length := by
          have hbody := body.2
          rw [h] at hbody
          exact Nat.le_of_succ_le hbody
        Scanned.within (le_length_cons c hle) <$> scanCode room stop (⟨.of (.char c), [c]⟩ :: read) after
    | .heredoc more label isNowdoc =>
      let read := ⟨.of .heredocStart, c :: rest.take more⟩ :: read
      let body := rest.drop more
      match heredocBody? label true body with
      | none => throw (openError (.heredoc (String.ofList label)) read)
      | some (length, closing) =>
        let text := body.take length
        let closingText := (body.drop length).take closing
        let goOn (read : List Lexeme) : Lexing (Scanned (c :: rest)) :=
          Scanned.within (le_length_cons c (Nat.le_trans (length_drop_le _ _) (length_drop_le more rest)))
            <$> scanCode room stop (⟨.of .heredocEnd, closingText⟩ :: read) (body.drop (length + closing))
        if isNowdoc || !hasInterpolation text then goOn (flushText read text.reverse)
        else
          let (read, _) ← scanString room (.after length) read [] body
          goOn read
    | .openComment => throw (openError .comment read)
    | .openString => throw (openError .string read)
termination_by s.length
decreasing_by all_goals (simp only [List.length_cons, List.length_drop]; omega)

/-- As `Unassigned.scanString`. -/
def scanString (room : Nat) (stop : StringEnd) (read : List Lexeme) (text : List Char) (s : List Char) :
    Lexing (Scanned s) :=
  match stop, s with
  | .after 0, s => return (flushText read text, ⟨s, Nat.le_refl _⟩)
  | .after _, [] => return (flushText read text, ⟨[], Nat.le_refl _⟩)
  | .quote _, [] => throw (openError .string read)
  | stop, c :: rest =>
    if stop.isAt c then return (flushText read text, ⟨c :: rest, Nat.le_refl _⟩)
    else if c = '\\' then
      Scanned.within (length_drop_le_cons 1 c rest)
        <$> scanString room (stop.advance 2) read ((rest.take 1) ++ c :: text) (rest.drop 1)
    else if c = '$' ∧ startsIn isNameStart rest then do
      let (lexemes, length) ← simpleInterpolation rest
      Scanned.within (length_drop_le_cons length c rest)
        <$> scanString room (stop.advance (1 + length)) (lexemes.reverse ++ flushText read text) [] (rest.drop length)
    else if c = '\x7b' ∧ startsIn (· == '$') rest then
      if room = 0 then throw .tooDeep
      else do
        let opening : Lexeme := ⟨.of .curlyOpen, ['\x7b']⟩
        let (read, after) ← scanCode (room - 1) (.brace 0) (opening :: flushText read text) rest
        have hle : after.1.length ≤ rest.length := after.2
        Scanned.within (le_length_cons c hle)
          <$> scanString room (stop.advance (1 + (rest.length - after.1.length))) read [] after.1
    else if c = '$' ∧ startsIn (· == '\x7b') rest then
      let opening : Lexeme := ⟨.of .dollarCurlyOpen, ['$', '\x7b']⟩
      let read := opening :: flushText read text
      let inside := rest.drop 1
      match braceName? inside with
      | some name =>
        let read := ⟨.of (.char '\x7d'), ['\x7d']⟩ :: ⟨.of .stringVarName, inside.take name⟩ :: read
        Scanned.within (le_length_cons c (Nat.le_trans (length_drop_le _ _) (length_drop_le 1 rest)))
          <$> scanString room (stop.advance (name + 3)) read [] (inside.drop (name + 1))
      | none =>
        if room = 0 then throw .tooDeep
        else do
          let (read, after) ← scanCode (room - 1) (.brace 0) read inside
          have hle : after.1.length ≤ rest.length := Nat.le_trans after.2 (length_drop_le 1 rest)
          Scanned.within (le_length_cons c hle)
            <$> scanString room (stop.advance (2 + (inside.length - after.1.length))) read [] after.1
    else
      Scanned.within (le_length_cons c (Nat.le_refl _)) <$> scanString room (stop.advance 1) read (c :: text) rest
termination_by s.length
decreasing_by all_goals (simp only [List.length_cons, List.length_drop]; omega)

end

/-- As `Unassigned.scanFile`. -/
def scanFile (read : List Lexeme) (s : List Char) : Lexing (List Lexeme) :=
  let html := htmlLength s
  let read := if html = 0 then read else ⟨.of .inlineHtml, s.take html⟩ :: read
  match h : s.drop html with
  | '<' :: '?' :: rest => do
    let more := openTagMore rest
    let text := '<' :: '?' :: rest.take more
    let kind := if text = ['<', '?', '='] then Kind.openTagEcho else Kind.openTag
    let (read, after) ← scanCode maxNesting .file (⟨.of kind, text⟩ :: read) (rest.drop more)
    have : after.1.length < s.length := by
      have hdrop := congrArg List.length h
      have hafter := after.2
      simp at hdrop hafter
      omega
    scanFile read after.1
  | _ => return read
termination_by s.length

/-- As `Unassigned.tokenize`. -/
def tokenize (source : String) : Lexing (List Token) :=
  Token.ofLexemes {} 1 0 <$> List.reverse <$> scanFile [] source.toList

/-! ## The checked scanners are the scanners -/

/-- **No look-up of the checked scan fails**, and it has the result of the scan. -/
def Meets {α : Type} (checked : Lexing α) (result : Except ParseError α) : Prop :=
  checked = ExceptT.mk (.ok result)

namespace Meets

variable {α β : Type} {checked : Lexing α} {result : Except ParseError α}

theorem ok (a : α) : Meets (pure a) (.ok a) :=
  rfl

theorem error (e : ParseError) : Meets (throw e : Lexing α) (.error e) :=
  rfl

theorem map (h : Meets checked result) (g : α → β) : Meets (g <$> checked) (result.map g) := by
  cases h
  cases result <;> rfl

theorem bind (h : Meets checked result) {next : α → Lexing β} {next' : α → Except ParseError β}
    (hnext : ∀ a, Meets (next a) (next' a)) : Meets (checked >>= next) (result >>= next') := by
  cases h
  cases result with
  | ok a => exact hnext a
  | error e => rfl

/-- A look-up that succeeds. -/
theorem lookUp {x : Except Fault α} {a : α} (hx : x = .ok a) {next : α → Lexing β} {result : Except ParseError β}
    (h : Meets (next a) result) : Meets (liftM x >>= next) result := by
  rw [hx]
  exact h

theorem ite {c : Prop} [Decidable c] {checked' : Lexing α} {result' : Except ParseError α}
    (hpos : c → Meets checked result) (hneg : ¬ c → Meets checked' result') :
    Meets (if c then checked else checked') (if c then result else result') := by
  split
  · next h => exact hpos h
  · next h => exact hneg h

end Meets

-- one case for each way in which code or a string goes on, by the length of the text that is left
mutual

theorem scanCode_meets (room : Nat) (stop : CodeEnd) (read : List Lexeme) (s : List Char) :
    Meets (scanCode room stop read s) (Unassigned.scanCode room stop read s) := by
  cases s with
  | nil =>
      cases stop with
      | file =>
          rw [scanCode, Unassigned.scanCode]
          exact .ok _
      | brace depth =>
          rw [scanCode, Unassigned.scanCode]
          exact .error _
  | cons c rest =>
      rw [scanCode, Unassigned.scanCode]
      refine .lookUp (item_eq c rest) ?_
      cases Item.read c rest with
      | lexeme shape more =>
          dsimp only
          cases stop.after shape with
          | none => exact .ok _
          | some stop' => exact (scanCode_meets ..).map _
      | closeTag more => exact .ok _
      | quote =>
          refine (scanString_meets ..).bind fun ⟨mid, left, hleft⟩ => ?_
          cases left with
          | nil => exact .error _
          | cons d after => exact (scanCode_meets ..).map _
      | heredoc more label isNowdoc =>
          dsimp only
          cases heredocBody? label true (rest.drop more) with
          | none => exact .error _
          | some found =>
              refine .ite (fun _ => (scanCode_meets ..).map _) fun _ => ?_
              refine (scanString_meets ..).bind fun ⟨mid, left⟩ => ?_
              exact (scanCode_meets ..).map _
      | openComment => exact .error _
      | openString => exact .error _
termination_by s.length
decreasing_by all_goals (simp_all only [List.length_cons, List.length_drop]; omega)

theorem scanString_meets (room : Nat) (stop : StringEnd) (read : List Lexeme) (text : List Char) (s : List Char) :
    Meets (scanString room stop read text s) (Unassigned.scanString room stop read text s) := by
  by_cases hover : stop = .after 0
  · subst hover
    rw [scanString, Unassigned.scanString]
    exact .ok _
  cases s with
  | nil =>
      cases stop with
      | after count =>
          have hcount : count ≠ 0 := fun h => hover (congrArg _ h)
          rw [scanString, Unassigned.scanString]
          rotate_left
          · exact hcount
          · exact hcount
          exact .ok _
      | quote q =>
          rw [scanString, Unassigned.scanString]
          exact .error _
  | cons c rest =>
      rw [scanString, Unassigned.scanString]
      rotate_left
      · exact hover
      · exact hover
      refine .ite (fun _ => .ok _) fun _ => ?_
      refine .ite (fun _ => (scanString_meets ..).map _) fun _ => ?_
      -- the test before a variable is what its pattern needs
      refine .ite (fun hvar => .lookUp (simpleInterpolation_eq hvar.2) ((scanString_meets ..).map _)) fun _ => ?_
      refine .ite (fun _ => ?_) fun _ => .ite (fun _ => ?_) fun _ => (scanString_meets ..).map _
      · refine .ite (fun _ => .error _) fun _ => ?_
        refine (scanCode_meets ..).bind fun ⟨mid, left, hleft⟩ => ?_
        exact (scanString_meets ..).map _
      · dsimp only
        cases braceName? (rest.drop 1) with
        | some name => exact (scanString_meets ..).map _
        | none =>
            refine .ite (fun _ => .error _) fun _ => ?_
            refine (scanCode_meets ..).bind fun ⟨mid, left, hleft⟩ => ?_
            exact (scanString_meets ..).map _
termination_by s.length
decreasing_by all_goals (simp_all only [List.length_cons, List.length_drop]; omega)

end

theorem scanFile_meets (read : List Lexeme) (s : List Char) :
    Meets (scanFile read s) (Unassigned.scanFile read s) := by
  fun_induction Unassigned.scanFile read s with
  | case1 read s html read' rest htag more text kind ih =>
      rw [scanFile]
      dsimp only
      split
      · next rest' htag' =>
          cases htag.symm.trans htag'
          refine (scanCode_meets ..).bind fun ⟨mid, left, hleft⟩ => ?_
          exact ih mid ⟨left, hleft⟩
      · next hother => exact absurd htag (hother rest)
  | case2 read s html read' hother =>
      rw [scanFile]
      dsimp only
      split
      · next rest htag => exact absurd htag (hother rest)
      · exact .ok _

theorem tokenize_meets (source : String) : Meets (tokenize source) (Unassigned.tokenize source) := by
  rw [Unassigned.tokenize, lexemes]
  exact ((scanFile_meets [] source.toList).map List.reverse).map (Token.ofLexemes {} 1 0)

end Checked

end Unassigned
