/-!
# `Text.Basic` — sets of characters, white space, and the pieces of a text

A property of characters that a standard lists is kept as a set of code points. White space is such a
property, wider than ASCII: it includes the separators U+001C to U+001F, the no-break space and the ideographic space.
`strip` removes it at both ends of a text.

`splitAt` cuts at every occurrence of a character, so the pieces are one more than the occurrences and their
concatenation, with the separator between, is the text. `afterLast` is what follows the last occurrence, the whole text
if there is none.
-/

namespace Unassigned.Text

/-! ## Sets of code points -/

/-- A set of code points: how many are outside of it and inside of it, by turns, from the first one on. -/
abbrev CodeSet := List Nat

/-- The set holds the code point. -/
def CodeSet.mem : CodeSet → Nat → Bool
  | outside :: inside :: rest, code =>
    outside ≤ code && (code < outside + inside || mem rest (code - (outside + inside)))
  | _, _ => false

/-! ## White space -/

/-- The white space characters. -/
def blankTable : CodeSet :=
  [9, 5, 14, 5, 100, 1, 26, 1, 5599, 1, 2431, 11, 29, 2, 5, 1, 47, 1, 4000, 1]

/-- White space, in the whole range of code points. -/
def isBlank (c : Char) : Bool :=
  blankTable.mem c.toNat

/-- Drops the white space in front. -/
def stripFront (s : List Char) : List Char :=
  s.dropWhile isBlank

/-- Drops the white space at the end. -/
def stripBack (s : List Char) : List Char :=
  (s.reverse.dropWhile isBlank).reverse

/-- Drops the white space at both ends. -/
def stripChars (s : List Char) : List Char :=
  stripBack (stripFront s)

/-- A text without the white space at its two ends. -/
def strip (s : String) : String :=
  String.ofList (stripChars s.toList)

/-- No visible ASCII character is white space. -/
theorem isBlank_of_visible {c : Char} (hge : 0x21 ≤ c.toNat) (hle : c.toNat ≤ 0x7e) : isBlank c = false := by
  simp only [isBlank, blankTable, CodeSet.mem, Bool.or_false, Bool.or_eq_false_iff, Bool.and_eq_false_iff,
    decide_eq_false_iff_not]
  omega

/-! ## Pieces -/

/-- The pieces of a text between the occurrences of a character. -/
def splitAt (separator : Char) : List Char → List (List Char)
  | [] => [[]]
  | c :: rest =>
    if c = separator then [] :: splitAt separator rest
    else
      match splitAt separator rest with
      | [] => [[c]]
      | piece :: pieces => (c :: piece) :: pieces

/-- What follows the last occurrence of a character. -/
def afterLast (separator : Char) (s : List Char) : List Char :=
  (s.reverse.takeWhile (· != separator)).reverse

end Unassigned.Text
