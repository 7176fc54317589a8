import Unassigned.Token.Basic

/-!
# `Token.Lexeme` — where a lexeme of PHP code ends

A lexeme is a stretch of source whose shape is known from its characters alone; whether a word is a
keyword is decided later, from the tokens before it. `Item.read c s` looks at code that starts with the
character `c`, followed by `s`, and says what stands there and how many characters of `s` belong to it.
Of several readings the first in this order is taken: white space, comments, variables, numbers, words,
strings, heredocs, the closing tag, operators (longest first), single characters.
-/

namespace Unassigned

/-- What is known of a lexeme without its context. -/
inductive Shape where
  /-- An identifier, which may turn out to be a keyword. -/
  | word
  /-- A lexeme of a known kind. -/
  | of (kind : Kind)
  deriving DecidableEq, Repr

/-- A stretch of source and its shape. -/
structure Lexeme where
  shape : Shape
  text : List Char
  deriving DecidableEq, Repr

/-! ## Character classes -/

/-- A character that an identifier can start with: a letter, the underscore, anything beyond ASCII. -/
def isNameStart (c : Char) : Bool :=
  c.isAlpha || c == '_' || 0x80 ≤ c.toNat

/-- A character of an identifier. -/
def isNameChar (c : Char) : Bool :=
  isNameStart c || c.isDigit

/-- A character of the label of a heredoc. -/
def isLabelChar (c : Char) : Bool :=
  c.isAlphanum || c == '_'

/-- A blank in PHP code. -/
def isCodeBlank (c : Char) : Bool :=
  c == ' ' || c == '\t' || c == '\r' || c == '\n'

/-- A blank inside a line. -/
def isIndent (c : Char) : Bool :=
  c == ' ' || c == '\t'

/-- A digit, or an underscore between digits. -/
def isDigitOrUnderscore (c : Char) : Bool :=
  c.isDigit || c == '_'

/-- A hexadecimal digit, or an underscore between digits. -/
def isHexDigitOrUnderscore (c : Char) : Bool :=
  c.isDigit || ('a' ≤ c && c ≤ 'f') || ('A' ≤ c && c ≤ 'F') || c == '_'

/-- A binary digit, or an underscore between digits. -/
def isBinaryDigitOrUnderscore (c : Char) : Bool :=
  c == '0' || c == '1' || c == '_'

/-- The text starts with a character of the class. -/
def startsIn (p : Char → Bool) : List Char → Bool
  | c :: _ => p c
  | [] => false

/-- How many characters at the start of the text are of the class. -/
def runLength (p : Char → Bool) (s : List Char) : Nat :=
  (s.takeWhile p).length

/-- The length of the line end at the start of the text, zero if there is none. -/
def lineEndLength : List Char → Nat
  | '\r' :: '\n' :: _ => 2
  | '\n' :: _ => 1
  | _ => 0

/-! ## Comments -/

/-- The length of a block comment, from after its opening to the end of its closing. -/
def blockCommentLength? : List Char → Option Nat
  | [] => none
  | '*' :: '/' :: _ => some 2
  | _ :: rest => (blockCommentLength? rest).map (· + 1)

/-- The length of a line comment: it ends before a line end or a closing tag. -/
def lineCommentLength : List Char → Nat
  | [] => 0
  | c :: rest =>
    if c = '\r' ∨ c = '\n' ∨ (c = '?' ∧ startsIn (· == '>') rest) then 0
    else lineCommentLength rest + 1

/-! ## Numbers -/

/-- The length of an exponent at the start of the text, zero if there is none. -/
def exponentLength : List Char → Nat
  | [] => 0
  | c :: rest =>
    if c = 'e' ∨ c = 'E' then
      let sign := if startsIn (fun d => d == '+' || d == '-') rest then 1 else 0
      let digits := runLength Char.isDigit (rest.drop sign)
      if digits = 0 then 0 else 1 + sign + digits
    else 0

/-- The length of a fraction and exponent that follow a decimal point. -/
def fractionLength (s : List Char) : Nat :=
  let digits := runLength isDigitOrUnderscore s
  digits + exponentLength (s.drop digits)

/-- How far a decimal number extends after its first digit. -/
def decimalLength (s : List Char) : Nat :=
  let digits := runLength isDigitOrUnderscore s
  match s.drop digits with
  | '.' :: rest =>
    if startsIn Char.isDigit rest then digits + 1 + fractionLength rest else digits
  | rest => digits + exponentLength rest

/-- How far a number extends after its first digit `c`. -/
def numberLength (c : Char) (s : List Char) : Nat :=
  match s with
  | x :: rest =>
    let hex := runLength isHexDigitOrUnderscore rest
    let binary := runLength isBinaryDigitOrUnderscore rest
    if c = '0' ∧ (x = 'x' ∨ x = 'X') ∧ hex ≠ 0 then 1 + hex
    else if c = '0' ∧ (x = 'b' ∨ x = 'B') ∧ binary ≠ 0 then 1 + binary
    else decimalLength s
  | [] => 0

/-- A number with a decimal point or an exponent is a floating-point number; the letter e of a
    hexadecimal number is a digit. -/
def numberKind (text : List Char) : Kind :=
  let isHex := match text with
    | '0' :: x :: _ => x == 'x' || x == 'X'
    | _ => false
  if text.contains '.' || (!isHex && (text.contains 'e' || text.contains 'E')) then .float
  else .integer

/-! ## Strings -/

/-- The length of a single-quoted string after its opening quote, the closing quote included. -/
def singleQuotedLength? : List Char → Option Nat
  | [] => none
  | '\\' :: _ :: rest => (singleQuotedLength? rest).map (· + 2)
  | c :: rest =>
    if c = '\x27' then some 1
    else if c = '\\' then none
    else (singleQuotedLength? rest).map (· + 1)

/-- A dollar sign starts an interpolated part before this character. -/
def opensInterpolation (c : Char) : Bool :=
  isNameStart c || c == '\x7b'

/-- The length of a string in quotes `quote` after its opening quote, the closing quote included;
    nothing if the string does not end or has an interpolated part. -/
def plainStringLength? (quote : Char) : List Char → Option Nat
  | [] => none
  | c :: rest =>
    if c = quote then some 1
    else if c = '\\' then
      match rest with
      | [] => none
      | _ :: rest => (plainStringLength? quote rest).map (· + 2)
    else if c = '$' ∧ startsIn opensInterpolation rest then none
    else if c = '\x7b' ∧ startsIn (· == '$') rest then none
    else (plainStringLength? quote rest).map (· + 1)

/-- Some part of the text is interpolated. -/
def hasInterpolation : List Char → Bool
  | [] => false
  | c :: rest =>
    (c == '$' && startsIn opensInterpolation rest) || (c == '\x7b' && startsIn (· == '$') rest)
      || hasInterpolation rest

/-! ## Heredocs -/

/-- The opening of a heredoc after `<<<`: its length up to and with the line end, the label, and whether
    the label is in single quotes, so that nothing in the body is interpolated. -/
structure HeredocOpening where
  length : Nat
  label : List Char
  isNowdoc : Bool

/-- Reads the opening of a heredoc after `<<<`. -/
def heredocOpening? (s : List Char) : Option HeredocOpening :=
  let indent := runLength isIndent s
  let afterIndent := s.drop indent
  let quote := if startsIn (fun c => c == '\x22' || c == '\x27') afterIndent then
    afterIndent.take 1 else []
  let afterQuote := afterIndent.drop quote.length
  let label := afterQuote.takeWhile isLabelChar
  let afterLabel := afterQuote.drop label.length
  if startsIn (fun c => c.isAlpha || c == '_') label ∧ quote.isPrefixOf afterLabel then
    let lineEnd := lineEndLength (afterLabel.drop quote.length)
    if lineEnd = 0 then none
    else some {
      length := indent + quote.length + label.length + quote.length + lineEnd
      label := label
      isNowdoc := quote == ['\x27'] }
  else none

/-- The length of the closing line start of a heredoc: blanks and the label, not followed by another
    character of an identifier. -/
def closingLabelLength? (label s : List Char) : Option Nat :=
  let indent := runLength isIndent s
  match label.isPrefixOf? (s.drop indent) with
  | some rest => if startsIn isNameChar rest then none else some (indent + label.length)
  | none => none

/-- The length of the body of a heredoc and of its closing label, searched at every line start. The
    text is at a line start if `atStart`. -/
def heredocBody? (label : List Char) (atStart : Bool) (s : List Char) : Option (Nat × Nat) :=
  match if atStart then closingLabelLength? label s else none with
  | some closing => some (0, closing)
  | none =>
    match s with
    | [] => none
    | c :: rest =>
      (heredocBody? label (c == '\n') rest).map fun (body, closing) => (body + 1, closing)

/-! ## Operators -/

/-- The operators of more than one character, longest first. -/
def operatorTable : List (String × Kind) := [
  ("<<=", .operator), (">>=", .operator), ("**=", .operator), ("...", .ellipsis),
  ("<=>", .operator), ("===", .operator), ("!==", .operator), ("??=", .coalesceAssign),
  ("?->", .nullsafeArrow), ("++", .increment), ("--", .decrement), ("->", .arrow),
  ("=>", .doubleArrow), ("::", .doubleColon), ("==", .operator), ("!=", .operator),
  ("<>", .operator), ("<=", .operator), (">=", .operator), ("&&", .operator), ("||", .operator),
  ("??", .operator), ("+=", .plusAssign), ("-=", .operator), ("*=", .operator), ("/=", .operator),
  (".=", .concatAssign), ("%=", .operator), ("&=", .operator), ("|=", .operator),
  ("^=", .operator), ("<<", .operator), (">>", .operator), ("**", .operator)]

/-- The first operator of the table that the text starts with. -/
def operatorAt? (s : List Char) : Option (String × Kind) :=
  operatorTable.find? fun (text, _) => text.toList.isPrefixOf s

/-! ## One item of code -/

/-- What stands at a place of PHP code. The numbers count the characters after the first one. -/
inductive Item where
  /-- A lexeme of the first character and `more` further ones. -/
  | lexeme (shape : Shape) (more : Nat)
  /-- The tag that ends the code. -/
  | closeTag (more : Nat)
  /-- The opening quote of a string that may have interpolated parts. -/
  | quote
  /-- The opening of a heredoc. -/
  | heredoc (more : Nat) (label : List Char) (isNowdoc : Bool)
  /-- A block comment without end. -/
  | openComment
  /-- A single-quoted string without end. -/
  | openString

namespace Item

/-- An operator, or else the single character `c`. -/
def punctuation (c : Char) (s : List Char) : Item :=
  match operatorAt? (c :: s) with
  | some (text, kind) => .lexeme (.of kind) (text.length - 1)
  | none => if c = '\\' then .lexeme (.of .nsSeparator) 0 else .lexeme (.of (.char c)) 0

/-- A comment that starts with a slash, or else punctuation. -/
def slash (s : List Char) : Item :=
  match s with
  | '*' :: rest =>
    match blockCommentLength? rest with
    | none => .openComment
    | some length =>
      let isDoc := match rest with
        | '*' :: c :: _ => isCodeBlank c
        | _ => false
      .lexeme (.of (if isDoc then .docComment else .comment)) (1 + length)
  | '/' :: rest => .lexeme (.of .comment) (1 + lineCommentLength rest)
  | _ => punctuation '/' s

/-- A comment or the opening of an attribute. -/
def hash (s : List Char) : Item :=
  if startsIn (· == '[') s then .lexeme (.of .attributeOpen) 1
  else .lexeme (.of .comment) (lineCommentLength s)

/-- The closing tag, or else punctuation. -/
def question (s : List Char) : Item :=
  match s with
  | '>' :: rest => .closeTag (1 + lineEndLength rest)
  | _ => punctuation '?' s

/-- The opening of a heredoc, or else punctuation. -/
def less (s : List Char) : Item :=
  match s with
  | '<' :: '<' :: rest =>
    match heredocOpening? rest with
    | some opening => .heredoc (2 + opening.length) opening.label opening.isNowdoc
    | none => punctuation '<' s
  | _ => punctuation '<' s

/-- A number whose first character is `c`, a digit or a point. -/
def number (c : Char) (s : List Char) : Item :=
  let more := if c = '.' then fractionLength s else numberLength c s
  .lexeme (.of (numberKind (c :: s.take more))) more

/-- What stands at the start of code with first character `c`, followed by `s`. -/
def read (c : Char) (s : List Char) : Item :=
  if isCodeBlank c then .lexeme (.of .whitespace) (runLength isCodeBlank s)
  else if c = '/' then slash s
  else if c = '#' then hash s
  else if c = '$' ∧ startsIn isNameStart s then .lexeme (.of .var) (runLength isNameChar s)
  else if c.isDigit ∨ (c = '.' ∧ startsIn Char.isDigit s) then number c s
  else if isNameStart c then .lexeme .word (runLength isNameChar s)
  else if c = '\x27' then
    match singleQuotedLength? s with
    | some more => .lexeme (.of .stringLiteral) more
    | none => .openString
  else if c = '\x22' ∨ c = '\x60' then
    match plainStringLength? c s with
    | some more => .lexeme (.of .stringLiteral) more
    | none => .quote
  else if c = '<' then less s
  else if c = '?' then question s
  else punctuation c s

end Item

end Unassigned
