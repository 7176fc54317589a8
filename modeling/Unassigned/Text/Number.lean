import Unassigned.Text.Basic

/-!
# `Text.Number` — numbers in a text

Each script's ten decimal digits follow each other, from zero to nine, so a table of the zeros gives every digit's
value. An integer may have a sign, digits of any script, and single underscores between digits. White space around it is
ignored. A number of more than `maxDigits` digits is refused. Hexadecimal numbers are written with lower-case digits,
padded with zeros to a width.
-/

namespace Unassigned.Text

/-! ## Decimal digits -/

/-- The digit zero of each script. -/
def zeroTable : List Nat := [
  0x30, 0x660, 0x6f0, 0x7c0, 0x966, 0x9e6, 0xa66, 0xae6, 0xb66, 0xbe6, 0xc66, 0xce6, 0xd66, 0xde6,
  0xe50, 0xed0, 0xf20, 0x1040, 0x1090, 0x17e0, 0x1810, 0x1946, 0x19d0, 0x1a80, 0x1a90, 0x1b50,
  0x1bb0, 0x1c40, 0x1c50, 0xa620, 0xa8d0, 0xa900, 0xa9d0, 0xa9f0, 0xaa50, 0xabf0, 0xff10, 0x104a0,
  0x10d30, 0x11066, 0x110f0, 0x11136, 0x111d0, 0x112f0, 0x11450, 0x114d0, 0x11650, 0x116c0, 0x11730,
  0x118e0, 0x11950, 0x11c50, 0x11d50, 0x11da0, 0x16a60, 0x16ac0, 0x16b50, 0x1d7ce, 0x1d7d8, 0x1d7e2,
  0x1d7ec, 0x1d7f6, 0x1e140, 0x1e2f0, 0x1e950, 0x1fbf0]

/-- The value of a decimal digit of any script. -/
def digitValue? (c : Char) : Option Nat :=
  (zeroTable.find? fun first => first ≤ c.toNat && c.toNat < first + 10).map fun first =>
    c.toNat - first

/-! ## Integers -/

/-- The greatest number of digits that is read. -/
def maxDigits : Nat := 4300

/-- The value of digits that go on after a digit; `value` is what the digits before them stand for and
    `count` their number. -/
def digitsAfter? (value count : Nat) : List Char → Option Nat
  | [] => if count ≤ maxDigits then some value else none
  | '_' :: c :: rest =>
    match digitValue? c with
    | some digit => digitsAfter? (10 * value + digit) (count + 1) rest
    | none => none
  | c :: rest =>
    match digitValue? c with
    | some digit => digitsAfter? (10 * value + digit) (count + 1) rest
    | none => none

/-- The value of a number without sign. -/
def natural? : List Char → Option Nat
  | [] => none
  | c :: rest =>
    match digitValue? c with
    | some digit => digitsAfter? digit 1 rest
    | none => none

/-- The value of a number without white space around it. -/
def signed? : List Char → Option Int
  | '-' :: rest => (natural? rest).map fun n => -(n : Int)
  | '+' :: rest => (natural? rest).map Int.ofNat
  | rest => (natural? rest).map Int.ofNat

/-- The integer that a text stands for. -/
def integer? (s : List Char) : Option Int :=
  signed? (stripChars s)

/-! ## Hexadecimal digits -/

/-- The digits of `n` in base sixteen, padded with zeros to at least `width` places. -/
def hexPadded (width n : Nat) : List Char :=
  let digits := Nat.toDigits 16 n
  List.replicate (width - digits.length) '0' ++ digits

/-- The value of a hexadecimal digit of either case. -/
def hexValue? (c : Char) : Option Nat :=
  if '0' ≤ c ∧ c ≤ '9' then some (c.toNat - '0'.toNat)
  else if 'a' ≤ c ∧ c ≤ 'f' then some (c.toNat - 'a'.toNat + 10)
  else if 'A' ≤ c ∧ c ≤ 'F' then some (c.toNat - 'A'.toNat + 10)
  else none

/-- The number that a sequence of hexadecimal digits stands for. -/
def hexNumber? (digits : List Char) : Option Nat :=
  digits.foldlM (fun n c => (hexValue? c).map (16 * n + ·)) 0

end Unassigned.Text
