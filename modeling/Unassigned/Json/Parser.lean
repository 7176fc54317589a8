import Unassigned.Json.Basic

/-!
# `Json.Parser` — reading JSON

The grammar is that of the standard, with three more words for numbers: `NaN`, `Infinity` and
`-Infinity`. A control character in a string is an error, and so is anything but blanks after the value.
Two limits are set: on the digits of an integer, and on the depth of arrays and objects. Each reader hands
back the text after what it has read, which is shorter, so nesting ends by length. The first error of a text
is the one that counts.
-/

namespace Unassigned

/-- An array or an object. -/
inductive JsonContainer where
  | array
  | object
  deriving DecidableEq, Repr

/-- Why no value is read from a text. -/
inductive JsonError where
  | malformed
  /-- An integer has too many digits. -/
  | tooManyDigits (count : Nat)
  /-- Too many arrays and objects contain one. -/
  | tooDeep (container : JsonContainer)
  deriving DecidableEq, Repr

/-- The wording of an error. -/
def JsonError.message : JsonError → String
  | .malformed => "malformed JSON"
  | .tooManyDigits count =>
    "Exceeds the limit (" ++ toString Text.maxDigits ++ " digits) for integer string conversion: value has "
      ++ toString count ++ " digits; use sys.set_int_max_str_digits() to increase the limit"
  | .tooDeep .array =>
    "maximum recursion depth exceeded while decoding a JSON array from a unicode string"
  | .tooDeep .object =>
    "maximum recursion depth exceeded while decoding a JSON object from a unicode string"

namespace Json

/-- The greatest depth of arrays and objects that is read. -/
def maxDepth : Nat := 980

/-- A value read from the start of `s`, and the shorter text after it. -/
abbrev Parsed (α : Type) (s : List Char) :=
  Except JsonError (α × { rest : List Char // rest.length < s.length })

/-- What is left of a shorter text is left of the text. -/
def Parsed.within {α : Type} {s t : List Char} (h : t.length ≤ s.length) (p : Parsed α t) :
    Parsed α s :=
  p.map fun (value, rest) => (value, ⟨rest.1, Nat.lt_of_lt_of_le rest.2 h⟩)

/-- A blank between the parts of a value. -/
def isSpace (c : Char) : Bool :=
  c == ' ' || c == '\t' || c == '\n' || c == '\r'

/-- The text after the blanks at its start. -/
def skipSpace (s : List Char) : List Char :=
  s.dropWhile isSpace

theorem length_skipSpace_le (s : List Char) : (skipSpace s).length ≤ s.length :=
  (List.dropWhile_suffix isSpace).length_le

/-- The character of a code point, or the replacement character for half of a surrogate pair. -/
def charOfCode (code : Nat) : Char :=
  if 0xd800 ≤ code ∧ code < 0xe000 then '�' else Char.ofNat code

/-- The code point of the two halves of a surrogate pair. -/
def joinSurrogates? (high low : Nat) : Option Nat :=
  if 0xd800 ≤ high ∧ high < 0xdc00 ∧ 0xdc00 ≤ low ∧ low < 0xe000 then
    some (0x10000 + (high - 0xd800) * 0x400 + (low - 0xdc00))
  else none

/-- The character that a letter after a backslash stands for. -/
def escaped? (c : Char) : Option Char :=
  if c = '\x22' ∨ c = '\\' ∨ c = '/' then some c
  else if c = 'b' then some '\x08'
  else if c = 'f' then some '\x0c'
  else if c = 'n' then some '\n'
  else if c = 'r' then some '\r'
  else if c = 't' then some '\t'
  else none

/-- A character written as a backslash, the letter u and four hexadecimal digits, or as two such
    escapes that form a surrogate pair; `s` is the text after the backslash. -/
def unicodeEscape? (s : List Char) : Option (Char × Nat) :=
  match s with
  | 'u' :: rest =>
    if 4 ≤ rest.length then
      match Text.hexNumber? (rest.take 4) with
      | none => none
      | some high =>
        match rest.drop 4 with
        | '\\' :: 'u' :: tail =>
          match if 4 ≤ tail.length then
              (Text.hexNumber? (tail.take 4)).bind (joinSurrogates? high) else none with
          | some code => some (Char.ofNat code, 11)
          | none => some (charOfCode high, 5)
        | _ => some (charOfCode high, 5)
    else none
  | _ => none

/-- The rest of a string after its opening quote. -/
def parseString (s : List Char) : Parsed (List Char) s :=
  match s with
  | [] => .error .malformed
  | '\x22' :: rest => .ok ([], ⟨rest, by simp⟩)
  | '\\' :: rest =>
    match unicodeEscape? rest with
    | some (c, length) =>
      ((parseString (rest.drop length)).within (by simp; omega)).map fun (text, tail) =>
        (c :: text, tail)
    | none =>
      match rest with
      | [] => .error .malformed
      | c :: rest =>
        match escaped? c with
        | none => .error .malformed
        | some c =>
          ((parseString rest).within (by simp; omega)).map fun (text, tail) => (c :: text, tail)
  | c :: rest =>
    if c.toNat < 0x20 then .error .malformed
    else ((parseString rest).within (by simp)).map fun (text, tail) => (c :: text, tail)
termination_by s.length

/-- The length of a fraction, the point included; zero if there is none. -/
def fractionPart : List Char → Nat
  | '.' :: rest =>
    let digits := (rest.takeWhile Char.isDigit).length
    if digits = 0 then 0 else digits + 1
  | _ => 0

/-- The length of an exponent; zero if there is none. -/
def exponentPart : List Char → Nat
  | c :: rest =>
    if c = 'e' ∨ c = 'E' then
      let sign := match rest with
        | '+' :: _ | '-' :: _ => 1
        | _ => 0
      let digits := ((rest.drop sign).takeWhile Char.isDigit).length
      if digits = 0 then 0 else 1 + sign + digits
    else 0
  | [] => 0

/-- The number that decimal digits stand for. -/
def decimal (digits : List Char) : Nat :=
  digits.foldl (fun n c => 10 * n + (c.toNat - '0'.toNat)) 0

/-- A number without its sign: the value and its length. -/
def unsigned (s : List Char) : Except JsonError (Json × Nat) :=
  let digits := s.takeWhile Char.isDigit
  let whole := if digits.head? = some '0' then ['0'] else digits
  if whole.isEmpty then .error .malformed
  else
    let fraction := fractionPart (s.drop whole.length)
    let exponent := exponentPart (s.drop (whole.length + fraction))
    let length := whole.length + fraction + exponent
    if fraction ≠ 0 ∨ exponent ≠ 0 then .ok (.real (String.ofList (s.take length)), length)
    else if Text.maxDigits < whole.length then .error (.tooManyDigits whole.length)
    else .ok (.int (decimal whole), length)

/-- A value that is one word: its spelling and what it stands for. -/
def wordTable : List (String × Json) := [
  ("null", .null), ("true", .bool true), ("false", .bool false), ("NaN", .real "NaN"),
  ("Infinity", .real "Infinity"), ("-Infinity", .real "-Infinity")]

/-- A word or number: the value and its length, which is not zero. -/
def scalar (s : List Char) : Except JsonError (Json × Nat) :=
  match wordTable.find? fun (word, _) => word.toList.isPrefixOf s with
  | some (word, value) => .ok (value, word.length)
  | none =>
    match s with
    | '-' :: rest =>
      (unsigned rest).map fun (value, length) =>
        match value with
        | .int n => (.int (-n), length + 1)
        | .real text => (.real ("-" ++ text), length + 1)
        | other => (other, length + 1)
    | _ => unsigned s

mutual

/-- A value at the start of the text, in so many arrays and objects. -/
def parseValue (depth : Nat) (s : List Char) : Parsed Json s :=
  match h : s with
  | [] => .error .malformed
  | '\x22' :: rest =>
    ((parseString rest).within (by simp)).map fun (text, tail) => (.str (String.ofList text), tail)
  | '[' :: rest =>
    if maxDepth ≤ depth then .error (.tooDeep .array)
    else
      match h : skipSpace rest with
      | ']' :: tail =>
        .ok (.arr [], ⟨tail, by have := length_skipSpace_le rest; simp [h] at this ⊢; omega⟩)
      | _ =>
        ((parseElements (depth + 1) rest).within (by simp)).map fun (elements, tail) =>
          (.arr elements, tail)
  | '\x7b' :: rest =>
    if maxDepth ≤ depth then .error (.tooDeep .object)
    else
      match h : skipSpace rest with
      | '\x7d' :: tail =>
        .ok (.obj [], ⟨tail, by have := length_skipSpace_le rest; simp [h] at this ⊢; omega⟩)
      | _ =>
        ((parseMembers (depth + 1) rest).within (by simp)).map fun (members, tail) =>
          (ofMembers members, tail)
  | c :: rest =>
    match scalar (c :: rest) with
    | .error e => .error e
    | .ok (value, length) => .ok (value, ⟨rest.drop (length - 1), by
        rw [List.length_drop, List.length_cons]; omega⟩)
termination_by (s.length, 0)

/-- The elements of an array up to its closing bracket, at least one. -/
def parseElements (depth : Nat) (s : List Char) : Parsed (List Json) s :=
  have hs := length_skipSpace_le s
  match parseValue depth (skipSpace s) with
  | .error e => .error e
  | .ok (value, rest) =>
    have hrest := rest.2
    have hskip := length_skipSpace_le rest.1
    match h : skipSpace rest.1 with
    | ']' :: tail => .ok ([value], ⟨tail, by simp [h] at hskip; omega⟩)
    | ',' :: tail =>
      ((parseElements depth tail).within (by simp [h] at hskip; omega)).map fun (values, tail) =>
        (value :: values, tail)
    | _ => .error .malformed
termination_by (s.length, 1)
decreasing_by all_goals (simp_all [Prod.lex_def]; omega)

/-- The members of an object up to its closing brace, at least one. -/
def parseMembers (depth : Nat) (s : List Char) : Parsed (List (String × Json)) s :=
  have hs := length_skipSpace_le s
  match hquote : skipSpace s with
  | '\x22' :: keyText =>
    match parseString keyText with
    | .error e => .error e
    | .ok (key, afterKey) =>
      have hkey := afterKey.2
      have hskipKey := length_skipSpace_le afterKey.1
      match hcolon : skipSpace afterKey.1 with
      | ':' :: valueText =>
        have hskipValue := length_skipSpace_le valueText
        match parseValue depth (skipSpace valueText) with
        | .error e => .error e
        | .ok (value, rest) =>
          have hrest := rest.2
          have hskip := length_skipSpace_le rest.1
          match h : skipSpace rest.1 with
          | '\x7d' :: tail =>
            .ok ([(String.ofList key, value)], ⟨tail, by
              simp [h, hquote, hcolon] at hskip hs hskipKey; omega⟩)
          | ',' :: tail =>
            ((parseMembers depth tail).within (by
              simp [h, hquote, hcolon] at hskip hs hskipKey; omega)).map fun (members, tail) =>
                ((String.ofList key, value) :: members, tail)
          | _ => .error .malformed
      | _ => .error .malformed
  | _ => .error .malformed
termination_by (s.length, 1)
decreasing_by all_goals (simp_all [Prod.lex_def]; omega)

end

/-- The value that a whole text stands for. -/
def parse (text : String) : Except JsonError Json :=
  match parseValue 0 (skipSpace text.toList) with
  | .error e => .error e
  | .ok (value, rest) => if (skipSpace rest.1).isEmpty then .ok value else .error .malformed

end Json

end Unassigned
