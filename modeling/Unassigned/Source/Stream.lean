import Unassigned.Token.Lexer

/-!
# `Source.Stream` — moving through the tokens of a file

Places in a file are token indexes. The moves are `next?` and `prev?`, to the nearest significant token,
and `skipGroup`, to the end of a bracketed group. Both go forward (`next?_bounds`, `le_skipGroup`), so
every search through a file ends.

Searches come in two forms: `search?` finds the first token with a property, jumping over groups, and
`elements` splits a list at its separators.
-/

namespace Unassigned

/-! ## Pairs of brackets

Parentheses, square brackets and braces pair up, and so do the brackets of attributes and of interpolated expressions.
`pairBrackets` goes through the tokens with a stack of the brackets that are open. It fails at the first closing bracket
that does not belong to the innermost open one, and at the end if a bracket is still open. -/

/-- The character that closes a bracket of this kind, if the kind is an opening bracket. -/
def Kind.closer? : Kind → Option Char
  | .char '(' => some ')'
  | .char '[' => some ']'
  | .char '\x7b' => some '\x7d'
  | .curlyOpen => some '\x7d'
  | .dollarCurlyOpen => some '\x7d'
  | .attributeOpen => some ']'
  | _ => none

/-- The closing bracket that a kind is, if it is one. -/
def Kind.closing? : Kind → Option Char
  | .char ')' => some ')'
  | .char ']' => some ']'
  | .char '\x7d' => some '\x7d'
  | _ => none

/-- The pairs of opening and closing brackets, by token index and in the order of the closing ones;
    `opened` holds the brackets that are open, the innermost first. -/
def pairBrackets (opened : List Token) : List Token → Except ParseError (List (Nat × Nat))
  | [] =>
    match opened with
    | [] => .ok []
    | opener :: _ => .error (.unclosed opener)
  | t :: rest =>
    match t.kind.closer?, t.kind.closing? with
    | some _, _ => pairBrackets (t :: opened) rest
    | none, some c =>
      match opened with
      | [] => .error (.unmatched t)
      | opener :: opened =>
        if opener.kind.closer? = some c then
          (pairBrackets opened rest).map ((opener.index, t.index) :: ·)
        else .error (.mismatched t opener)
    | none, none => pairBrackets opened rest

/-- Notes the two brackets of a pair as partners of each other. -/
def setPair (table : Array (Option Nat)) (pair : Nat × Nat) : Array (Option Nat) :=
  (table.setIfInBounds pair.1 (some pair.2)).setIfInBounds pair.2 (some pair.1)

/-- For each of `size` tokens its partner, if the token is a bracket. -/
def partnerTable (size : Nat) (pairs : List (Nat × Nat)) : Array (Option Nat) :=
  pairs.foldl setPair (Array.replicate size none)

/-! ## The tokens of a file -/

/-- The tokens of a file and the partner of each bracket. -/
structure TokenStream where
  tokens : Array Token
  partners : Array (Option Nat)

namespace TokenStream

/-- The stream of a list of tokens; its brackets have to pair up. -/
def ofTokens (tokens : List Token) : Except ParseError TokenStream := do
  let pairs ← pairBrackets [] tokens
  return ⟨tokens.toArray, partnerTable tokens.length pairs⟩

variable (f : TokenStream)

/-- The number of tokens. -/
def size : Nat :=
  f.tokens.size

/-- The token at a place; beyond the end an empty one. -/
def token (i : Nat) : Token :=
  f.tokens.getD i ⟨.inlineHtml, "", 0, i⟩

/-- The kind of the token at a place. -/
def kind (i : Nat) : Kind :=
  (f.token i).kind

/-- The text of the token at a place. -/
def text (i : Nat) : String :=
  (f.token i).text

/-- The punctuation character `c` stands here. -/
def isChar (i : Nat) (c : Char) : Bool :=
  (f.token i).isChar c

/-- One of the punctuation characters `cs` stands here. -/
def isCharOf (i : Nat) (cs : List Char) : Bool :=
  (f.token i).isCharOf cs

/-! ## Significant neighbours -/

/-- The first significant token at or after a place. -/
def nextFrom? (i : Nat) : Option Nat :=
  if i < f.size then
    if (f.token i).isTrivial then nextFrom? (i + 1) else some i
  else none
termination_by f.size - i

/-- The first significant token after a place. -/
def next? (i : Nat) : Option Nat :=
  f.nextFrom? (i + 1)

/-- The last significant token before a place. -/
def prev? : Nat → Option Nat
  | 0 => none
  | i + 1 => if (f.token i).isTrivial then prev? i else some i

theorem nextFrom?_bounds {i j : Nat} (h : f.nextFrom? i = some j) : i ≤ j ∧ j < f.size := by
  fun_induction nextFrom? f i with
  | case1 i hi htriv ih => have := ih h; omega
  | case2 i hi htriv => simp at h; omega
  | case3 i hi => simp at h

theorem next?_bounds {i j : Nat} (h : f.next? i = some j) : i < j ∧ j < f.size := by
  have := f.nextFrom?_bounds h
  omega

/-- The token after `i` is the punctuation character `c`. -/
def nextIs (i : Nat) (c : Char) : Bool :=
  (f.next? i).any fun j => f.isChar j c

/-! ## Brackets -/

/-- The bracket that belongs to the one at a place. -/
def partner? (i : Nat) : Option Nat :=
  f.partners.getD i none

/-- The bracket that closes the one at a place, if that is an opening one. -/
def closer? (i : Nat) : Option Nat :=
  (f.partner? i).filter (i < ·)

/-- The end of the group that opens at a place, or the place itself. -/
def skipGroup (i : Nat) : Nat :=
  (f.closer? i).getD i

theorem le_skipGroup (i : Nat) : i ≤ f.skipGroup i := by
  unfold skipGroup closer?
  cases h : f.partner? i with
  | none => simp
  | some j =>
    by_cases hij : i < j
    · simp [Option.filter, hij]; omega
    · simp [Option.filter, hij]

/-- The partner of the bracket at a place. -/
def pairedBracket (i : Nat) : Except ParseError Nat :=
  match f.partner? i with
  | some j => .ok j
  | none => .error (.notBracket (f.token i))

/-! ## Searches -/

/-- The first significant token after a place that satisfies `found`. A token that satisfies `jumps` and
    opens a group is passed together with the group. -/
def search? (jumps found : Nat → Bool) (i : Nat) : Option Nat :=
  match _h : f.next? i with
  | none => none
  | some j =>
    if found j then some j
    else search? jumps found (if jumps j then f.skipGroup j else j)
termination_by f.size - i
decreasing_by
  have hnext := f.next?_bounds _h
  have hskip := f.le_skipGroup j
  split <;> omega

theorem search?_bounds {jumps found : Nat → Bool} {i j : Nat} (h : f.search? jumps found i = some j) :
    i < j ∧ j < f.size := by
  fun_induction search? f jumps found i with
  | case1 i hnext => simp at h
  | case2 i k hnext hfound =>
    have := f.next?_bounds hnext
    simp at h; omega
  | case3 i k hnext hfound ih =>
    have := f.next?_bounds hnext
    have := f.le_skipGroup k
    have := ih h
    split at this <;> omega

/-- The first significant token after a place, outside the groups that open after the place, that
    satisfies `found`. -/
def searchOutside? (found : Nat → Bool) (i : Nat) : Option Nat :=
  f.search? (fun _ => true) found i

/-- The semicolon, closing tag or closing brace that ends the statement which holds a place. -/
def statementEnd? (i : Nat) : Option Nat :=
  f.searchOutside? (fun j => f.kind j == .closeTag || f.isCharOf j [';', '\x7d']) i

/-- The statement's end, or the number of tokens if the file ends before it. -/
def statementEnd (i : Nat) : Nat :=
  (f.statementEnd? i).getD f.size

/-- The token that ends the expression after a place, or the number of tokens. -/
def expressionEnd (i : Nat) : Nat :=
  (f.searchOutside?
    (fun j => f.kind j == .closeTag || f.isCharOf j [';', ',', ')', ']', '\x7d']) i).getD f.size

/-- The first tokens of the elements of a list, from the token at a place on; the next token starts an
    element if `fresh`. -/
def elementsFrom (separators terminators : List Char) (fresh : Bool) (i : Nat) : List Nat :=
  if f.kind i == .closeTag || f.isCharOf i terminators then []
  else
    let isSeparator := f.isCharOf i separators
    let rest :=
      match _h : f.next? (if isSeparator then i else f.skipGroup i) with
      | none => []
      | some j => elementsFrom separators terminators isSeparator j
    if fresh && !isSeparator then i :: rest else rest
termination_by f.size - i
decreasing_by
  have hnext := f.next?_bounds _h
  have hskip := f.le_skipGroup i
  split at hnext <;> omega

/-- The first significant token of every element of the list that starts at a place. The list ends at the
    first terminator or closing tag outside nested brackets; an element without significant token does not
    count. -/
def elements (separators terminators : List Char) (i : Nat) : List Nat :=
  match f.nextFrom? i with
  | none => []
  | some j => f.elementsFrom separators terminators true j

/-- The first tokens of the arguments or parameters in the parentheses that open at a place. -/
def arguments (paren : Nat) : List Nat :=
  f.elements [','] [')'] (paren + 1)

end TokenStream

end Unassigned
