import Unassigned.Token.Keyword

/-!
# `Token.Basic` — tokens of a PHP source

A token is a stretch of the source with its kind, the line it starts on and its place in the token list.
A single punctuation character is its own kind, `Kind.char c`. White space and comments are trivial:
no construct of the language depends on them.
-/

namespace Unassigned

/-- The lexical class of a token. -/
inductive Kind where
  /-- Text outside the code tags. -/
  | inlineHtml
  /-- The tag `<?php` or `<?`. -/
  | openTag
  /-- The tag `<?=`. -/
  | openTagEcho
  /-- The tag `?>`, with the line end that follows it. -/
  | closeTag
  | whitespace
  | comment
  /-- A comment `/** ... */`. -/
  | docComment
  /-- A name with its dollar sign. -/
  | var
  /-- An identifier that is no keyword in its place. -/
  | name
  | integer
  | float
  /-- A whole string literal, without interpolated parts. -/
  | stringLiteral
  /-- A piece of literal text in a string with interpolated parts, or the body of a heredoc. -/
  | stringText
  /-- The number in a simple index `$a[0]` inside a string. -/
  | stringIndex
  /-- The name in `${name}` inside a string. -/
  | stringVarName
  /-- The brace that opens `{$ ... }` inside a string. -/
  | curlyOpen
  /-- The opening `${` inside a string. -/
  | dollarCurlyOpen
  | heredocStart
  | heredocEnd
  /-- The opening `#[` of an attribute. -/
  | attributeOpen
  | increment
  | decrement
  | concatAssign
  | plusAssign
  | coalesceAssign
  | doubleColon
  | arrow
  | nullsafeArrow
  | doubleArrow
  | nsSeparator
  | ellipsis
  /-- Any other operator of more than one character. -/
  | operator
  /-- A single punctuation character. -/
  | char (c : Char)
  | keyword (word : Keyword)
  deriving DecidableEq, Repr

namespace Kind

/-- White space and comments. -/
def isTrivial : Kind → Bool
  | .whitespace | .comment | .docComment => true
  | _ => false

/-- The operators `->` and `?->`. -/
def isObjectOperator : Kind → Bool
  | .arrow | .nullsafeArrow => true
  | _ => false

/-- The operators `->`, `?->` and `::`, after which a member's name stands. -/
def isMemberAccess : Kind → Bool
  | .arrow | .nullsafeArrow | .doubleColon => true
  | _ => false

/-- The name of a kind. -/
def label : Kind → String
  | .inlineHtml => "T_INLINE_HTML"
  | .openTag => "T_OPEN_TAG"
  | .openTagEcho => "T_OPEN_TAG_WITH_ECHO"
  | .closeTag => "T_CLOSE_TAG"
  | .whitespace => "T_WHITESPACE"
  | .comment => "T_COMMENT"
  | .docComment => "T_DOC_COMMENT"
  | .var => "T_VARIABLE"
  | .name => "T_STRING"
  | .integer => "T_LNUMBER"
  | .float => "T_DNUMBER"
  | .stringLiteral => "T_CONSTANT_ENCAPSED_STRING"
  | .stringText => "T_ENCAPSED_AND_WHITESPACE"
  | .stringIndex => "T_NUM_STRING"
  | .stringVarName => "T_STRING_VARNAME"
  | .curlyOpen => "T_CURLY_OPEN"
  | .dollarCurlyOpen => "T_DOLLAR_OPEN_CURLY_BRACES"
  | .heredocStart => "T_START_HEREDOC"
  | .heredocEnd => "T_END_HEREDOC"
  | .attributeOpen => "T_ATTRIBUTE"
  | .increment => "T_INC"
  | .decrement => "T_DEC"
  | .concatAssign => "T_CONCAT_EQUAL"
  | .plusAssign => "T_PLUS_EQUAL"
  | .coalesceAssign => "T_COALESCE_EQUAL"
  | .doubleColon => "T_DOUBLE_COLON"
  | .arrow => "T_OBJECT_OPERATOR"
  | .nullsafeArrow => "T_NULLSAFE_OBJECT_OPERATOR"
  | .doubleArrow => "T_DOUBLE_ARROW"
  | .nsSeparator => "T_NS_SEPARATOR"
  | .ellipsis => "T_ELLIPSIS"
  | .operator => "T_OPERATOR"
  | .char _ => "T_ONE_CHAR"
  | .keyword word => word.label

end Kind

/-- A token: kind, source text, line (from one) and place in the token list (from zero). -/
@[ext]
structure Token where
  kind : Kind
  text : String
  line : Nat
  index : Nat
  deriving DecidableEq, Repr

namespace Token

/-- White space or a comment. -/
def isTrivial (t : Token) : Bool :=
  t.kind.isTrivial

/-- The punctuation character `c`. -/
def isChar (t : Token) (c : Char) : Bool :=
  t.kind == .char c

/-- One of the punctuation characters `cs`. -/
def isCharOf (t : Token) (cs : List Char) : Bool :=
  match t.kind with
  | .char c => cs.contains c
  | _ => false

end Token

end Unassigned
