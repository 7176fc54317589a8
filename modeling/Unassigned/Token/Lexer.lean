import Unassigned.Token.Error
import Unassigned.Token.Lexeme

/-!
# `Token.Lexer` — from a source text to its tokens

The source alternates between text outside the code tags and code. Code is cut into lexemes one after
the other; a string or heredoc with interpolated parts is cut into literal text and the parts, and an
interpolated expression in braces is code again. Every scanner hands back the text it has not read,
which is never longer than what it was given, so the recursion ends by length. It does not go deeper than
`maxNesting` either: a scanner is told how much `room` there is for interpolated expressions inside each other.

A heredoc ends at the first line that starts with its label. If an interpolated expression in its body
runs beyond that line, scanning goes on from the label all the same.

Lexemes become tokens in one pass from left to right (`Token.ofLexemes`), which numbers them, counts
lines and tells keywords from names.
-/

namespace Unassigned

/-! ## Interpolated parts -/

/-- The simple index `[...]` after a variable in a string: kind and length of what is between the
    brackets. -/
def simpleIndex? : List Char → Option (Kind × Nat)
  | '[' :: rest =>
    let sign := if startsIn (· == '-') rest then 1 else 0
    let digits := runLength Char.isDigit (rest.drop sign)
    let name := runLength isNameChar rest
    let varName := runLength isNameChar (rest.drop 1)
    if digits ≠ 0 ∧ startsIn (· == ']') (rest.drop (sign + digits)) then
      some (.stringIndex, sign + digits)
    else if startsIn isNameStart rest ∧ startsIn (· == ']') (rest.drop name) then
      some (.name, name)
    else if startsIn (· == '$') rest ∧ startsIn isNameStart (rest.drop 1)
        ∧ startsIn (· == ']') (rest.drop (1 + varName)) then
      some (.var, 1 + varName)
    else none
  | _ => none

/-- The operator of a property access after a variable in a string, before the name of the property. -/
def simpleProperty? (s : List Char) : Option (Kind × Nat) :=
  if ['-', '>'].isPrefixOf s ∧ startsIn isNameStart (s.drop 2) then some (.arrow, 2)
  else if ['?', '-', '>'].isPrefixOf s ∧ startsIn isNameStart (s.drop 3) then
    some (.nullsafeArrow, 3)
  else none

/-- A variable in a string with at most one index or property; `s` is the text after the dollar sign.
    Returns the lexemes and how many characters of `s` belong to them. -/
def simpleInterpolation (s : List Char) : List Lexeme × Nat :=
  let name := runLength isNameChar s
  let head : Lexeme := ⟨.of .var, '$' :: s.take name⟩
  let rest := s.drop name
  match simpleIndex? rest with
  | some (kind, length) =>
    ([head, ⟨.of (.char '['), ['[']⟩, ⟨.of kind, (rest.drop 1).take length⟩,
      ⟨.of (.char ']'), [']']⟩], name + length + 2)
  | none =>
    match simpleProperty? rest with
    | some (kind, length) =>
      let property := runLength isNameChar (rest.drop length)
      ([head, ⟨.of kind, rest.take length⟩, ⟨.of .name, (rest.drop length).take property⟩],
        name + length + property)
    | none => ([head], name)

/-- The name in `${name}`; `s` is the text after the brace. -/
def braceName? (s : List Char) : Option Nat :=
  let name := runLength isNameChar s
  if startsIn isNameStart s ∧ startsIn (· == '\x7d') (s.drop name) then some name else none

/-! ## Scanning -/

/-- Where code ends: at the end of the file, or at the brace that closes an interpolated expression,
    with `depth` braces open inside it. -/
inductive CodeEnd where
  | file
  | brace (depth : Nat)

/-- The state after a lexeme of code; nothing if the lexeme is the brace that ends it. -/
def CodeEnd.after : CodeEnd → Shape → Option CodeEnd
  | .file, _ => some .file
  | .brace depth, .of (.char c) =>
    if c = '\x7b' then some (.brace (depth + 1))
    else if c = '\x7d' then
      match depth with
      | 0 => none
      | depth + 1 => some (.brace depth)
    else some (.brace depth)
  | .brace depth, _ => some (.brace depth)

/-- Where the text of a string ends: at a quote, or after the given number of characters. -/
inductive StringEnd where
  | quote (c : Char)
  | after (count : Nat)

/-- The string ends at this character. -/
def StringEnd.isAt : StringEnd → Char → Bool
  | .quote q, c => c == q
  | .after _, _ => false

/-- The end of a string after `count` characters of it. -/
def StringEnd.advance : StringEnd → Nat → StringEnd
  | .quote c, _ => .quote c
  | .after left, count => .after (left - count)

/-- Lexemes read so far, the latest first, and the text that is left of `s`. -/
abbrev Scanned (s : List Char) := List Lexeme × { rest : List Char // rest.length ≤ s.length }

/-- What is left of a part of a text is left of the text. -/
def Scanned.within {s t : List Char} (h : t.length ≤ s.length) (r : Scanned t) : Scanned s :=
  (r.1, ⟨r.2.1, Nat.le_trans r.2.2 h⟩)

/-- What is no longer than the rest of a text is no longer than the text. -/
theorem le_length_cons {s rest : List Char} (c : Char) (h : s.length ≤ rest.length) :
    s.length ≤ (c :: rest).length :=
  Nat.le_succ_of_le h

/-- Dropping characters leaves no more of them. -/
theorem length_drop_le (n : Nat) (s : List Char) : (s.drop n).length ≤ s.length :=
  (List.drop_sublist n s).length_le

/-- Dropping characters from the rest of a text. -/
theorem length_drop_le_cons (n : Nat) (c : Char) (rest : List Char) :
    (rest.drop n).length ≤ (c :: rest).length :=
  le_length_cons c (length_drop_le n rest)

/-- The number of line feeds in a text. -/
def lineFeeds (text : List Char) : Nat :=
  text.count '\n'

/-- The line after the lexemes read so far. -/
def lineAfter (read : List Lexeme) : Nat :=
  read.foldr (fun lexeme line => lineFeeds lexeme.text + line) 1

/-- Adds the literal text collected so far, last character first, as a lexeme of its own. -/
def flushText (read : List Lexeme) (text : List Char) : List Lexeme :=
  if text.isEmpty then read else ⟨.of .stringText, text.reverse⟩ :: read

/-- The error of a construct that does not end. -/
def openError (what : OpenConstruct) (read : List Lexeme) : ParseError :=
  .unterminated what (lineAfter read)

/-- How many interpolated expressions can be inside each other: a call stack of about a thousand has room for three
    calls each. -/
def maxNesting : Nat := 325

mutual

/-- Scans code up to its end, a closing tag or the end of the text. -/
def scanCode (room : Nat) (stop : CodeEnd) (read : List Lexeme) (s : List Char) :
    Except ParseError (Scanned s) :=
  match s with
  | [] =>
    match stop with
    | .file => .ok (read, ⟨[], Nat.le_refl _⟩)
    | .brace _ => .error (openError .interpolation read)
  | c :: rest =>
    match Item.read c rest with
    | .lexeme shape more =>
      let read := ⟨shape, c :: rest.take more⟩ :: read
      match stop.after shape with
      | none => .ok (read, ⟨rest.drop more, length_drop_le_cons more c rest⟩)
      | some stop =>
        (scanCode room stop read (rest.drop more)).map
          (Scanned.within (length_drop_le_cons more c rest))
    | .closeTag more =>
      .ok (⟨.of .closeTag, c :: rest.take more⟩ :: read,
        ⟨rest.drop more, length_drop_le_cons more c rest⟩)
    | .quote => do
      let opening : Lexeme := ⟨.of (.char c), [c]⟩
      let (read, body) ← scanString room (.quote c) (opening :: read) [] rest
      match h : body.1 with
      | [] => .error (openError .string read)
      | _ :: after =>
        have hle : after.length ≤ rest.length := by
          have hbody := body.2
          rw [h] at hbody
          exact Nat.le_of_succ_le hbody
        (scanCode room stop (⟨.of (.char c), [c]⟩ :: read) after).map
          (Scanned.within (le_length_cons c hle))
    | .heredoc more label isNowdoc =>
      let read := ⟨.of .heredocStart, c :: rest.take more⟩ :: read
      let body := rest.drop more
      match heredocBody? label true body with
      | none => .error (openError (.heredoc (String.ofList label)) read)
      | some (length, closing) => do
        let text := body.take length
        let read ←
          if isNowdoc || !hasInterpolation text then
            pure (flushText read text.reverse)
          else do
            let (read, _) ← scanString room (.after length) read [] body
            pure read
        let closingText := (body.drop length).take closing
        (scanCode room stop (⟨.of .heredocEnd, closingText⟩ :: read) (body.drop (length + closing))).map
          (Scanned.within (le_length_cons c
            (Nat.le_trans (length_drop_le _ _) (length_drop_le more rest))))
    | .openComment => .error (openError .comment read)
    | .openString => .error (openError .string read)
termination_by s.length
decreasing_by all_goals (simp only [List.length_cons, List.length_drop]; omega)

/-- Scans the inside of a string up to its end; `text` is the literal text collected since the last
    interpolated part, last character first. -/
def scanString (room : Nat) (stop : StringEnd) (read : List Lexeme) (text : List Char) (s : List Char) :
    Except ParseError (Scanned s) :=
  match stop, s with
  | .after 0, s => .ok (flushText read text, ⟨s, Nat.le_refl _⟩)
  | .after _, [] => .ok (flushText read text, ⟨[], Nat.le_refl _⟩)
  | .quote _, [] => .error (openError .string read)
  | stop, c :: rest =>
    if stop.isAt c then
      .ok (flushText read text, ⟨c :: rest, Nat.le_refl _⟩)
    else if c = '\\' then
      (scanString room (stop.advance 2) read ((rest.take 1) ++ c :: text) (rest.drop 1)).map
        (Scanned.within (length_drop_le_cons 1 c rest))
    else if c = '$' ∧ startsIn isNameStart rest then
      let (lexemes, length) := simpleInterpolation rest
      (scanString room (stop.advance (1 + length)) (lexemes.reverse ++ flushText read text) []
        (rest.drop length)).map (Scanned.within (length_drop_le_cons length c rest))
    else if c = '\x7b' ∧ startsIn (· == '$') rest then
      if room = 0 then .error .tooDeep
      else do
        let opening : Lexeme := ⟨.of .curlyOpen, ['\x7b']⟩
        let (read, after) ← scanCode (room - 1) (.brace 0) (opening :: flushText read text) rest
        have hle : after.1.length ≤ rest.length := after.2
        (scanString room (stop.advance (1 + (rest.length - after.1.length))) read [] after.1).map
          (Scanned.within (le_length_cons c hle))
    else if c = '$' ∧ startsIn (· == '\x7b') rest then
      let opening : Lexeme := ⟨.of .dollarCurlyOpen, ['$', '\x7b']⟩
      let read := opening :: flushText read text
      let inside := rest.drop 1
      match braceName? inside with
      | some name =>
        let read := ⟨.of (.char '\x7d'), ['\x7d']⟩ :: ⟨.of .stringVarName, inside.take name⟩ :: read
        (scanString room (stop.advance (name + 3)) read [] (inside.drop (name + 1))).map
          (Scanned.within (le_length_cons c
            (Nat.le_trans (length_drop_le _ _) (length_drop_le 1 rest))))
      | none =>
        if room = 0 then .error .tooDeep
        else do
          let (read, after) ← scanCode (room - 1) (.brace 0) read inside
          have hle : after.1.length ≤ rest.length :=
            Nat.le_trans after.2 (length_drop_le 1 rest)
          (scanString room (stop.advance (2 + (inside.length - after.1.length))) read [] after.1).map
            (Scanned.within (le_length_cons c hle))
    else
      (scanString room (stop.advance 1) read (c :: text) rest).map
        (Scanned.within (le_length_cons c (Nat.le_refl _)))
termination_by s.length
decreasing_by all_goals (simp only [List.length_cons, List.length_drop]; omega)

end

/-! ## Text outside the code tags -/

/-- The text starts with a word in any case of its ASCII letters. -/
def startsWithWord (word : String) (s : List Char) : Bool :=
  (s.take word.length).map Char.toLower == word.toList

/-- How many characters after `<?` belong to the opening tag: `php` with the blank or line end that has
    to follow it, or the equals sign, or nothing. -/
def openTagMore (s : List Char) : Nat :=
  let after := s.drop 3
  let lineEnd := lineEndLength after
  if startsWithWord "php" s ∧ startsIn isIndent after then 4
  else if startsWithWord "php" s ∧ (lineEnd ≠ 0 ∨ after = []) then 3 + lineEnd
  else if startsIn (· == '=') s then 1
  else 0

/-- The length of the text before the next opening tag; `<?xml` opens no code. -/
def htmlLength : List Char → Nat
  | [] => 0
  | c :: rest =>
    if c = '<' ∧ startsIn (· == '?') rest ∧ !startsWithWord "xml" (rest.drop 1) then 0
    else htmlLength rest + 1

/-- Scans a file, from a place outside the code tags. -/
def scanFile (read : List Lexeme) (s : List Char) : Except ParseError (List Lexeme) :=
  let html := htmlLength s
  let read := if html = 0 then read else ⟨.of .inlineHtml, s.take html⟩ :: read
  match h : s.drop html with
  | '<' :: '?' :: rest => do
    let more := openTagMore rest
    let text := '<' :: '?' :: rest.take more
    let kind := if text = ['<', '?', '='] then Kind.openTagEcho else Kind.openTag
    let (read, after) ← scanCode maxNesting .file (⟨.of kind, text⟩ :: read) (rest.drop more)
    have : after.1.length < s.length := by
      have hdrop := congrArg List.length h
      have hafter := after.2
      simp at hdrop hafter
      omega
    scanFile read after.1
  | _ => .ok read
termination_by s.length

/-- The lexemes of a source, in order. -/
def lexemes (source : List Char) : Except ParseError (List Lexeme) :=
  (scanFile [] source).map List.reverse

/-! ## Tokens -/

/-- The kinds of the two significant tokens before a place. -/
structure Preceding where
  last : Option Kind := none
  beforeLast : Option Kind := none
  deriving DecidableEq, Repr

namespace Preceding

/-- The significant tokens before a place, after one more token. -/
def push (before : Preceding) (kind : Kind) : Preceding :=
  if kind.isTrivial then before else ⟨some kind, before.last⟩

/-- A word here is a name even if it spells a keyword: it is a member, or the name of a function. -/
def namesHere (before : Preceding) : Bool :=
  before.last.any Kind.isMemberAccess
    || before.last == some (.keyword .functionWord)
    || (before.last == some (.char '&') && before.beforeLast == some (.keyword .functionWord))

end Preceding

/-- The kind of a lexeme in its context. -/
def Lexeme.kind (before : Preceding) (lexeme : Lexeme) : Kind :=
  match lexeme.shape with
  | .of kind => kind
  | .word =>
    match Keyword.ofText? (String.ofList lexeme.text) with
    | some word => if before.namesHere then .name else .keyword word
    | none => .name

/-- Tokens of a sequence of lexemes that starts on `line`, at place `index` of the token list. -/
def Token.ofLexemes (before : Preceding) (line index : Nat) : List Lexeme → List Token
  | [] => []
  | lexeme :: rest =>
    let kind := lexeme.kind before
    ⟨kind, String.ofList lexeme.text, line, index⟩
      :: Token.ofLexemes (before.push kind) (line + lineFeeds lexeme.text) (index + 1) rest

/-- The tokens of a source. -/
def tokenize (source : String) : Except ParseError (List Token) :=
  (lexemes source.toList).map (Token.ofLexemes {} 1 0)

end Unassigned
