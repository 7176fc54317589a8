import Unassigned.Text.Number

/-!
# `Text.Utf8` — texts from bytes

Bytes are read as UTF-8. There are two ways to treat what is malformed: `decodeUtf8` replaces it by U+FFFD
and goes on, and `readUtf8` refuses it and tells where it is. A sequence that starts well and breaks off is
one fault, and so is every other malformed byte.

The second byte of a sequence decides more than that it continues: it excludes overlong forms, surrogates
and codes past the last plane.
-/

namespace Unassigned.Text

/-- What a first byte announces: the bits it contributes, how many bytes follow, and the range of the
    second byte. -/
structure Utf8Lead where
  bits : Nat
  tail : Nat
  low : Nat := 0x80
  high : Nat := 0xBF

/-- What a first byte announces; nothing for a byte that starts no character. -/
def utf8Lead? (b : Nat) : Option Utf8Lead :=
  if b < 0x80 then some { bits := b, tail := 0 }
  else if b < 0xC2 then none
  else if b < 0xE0 then some { bits := b - 0xC0, tail := 1 }
  else if b = 0xE0 then some { bits := 0, tail := 2, low := 0xA0 }
  else if b = 0xED then some { bits := 0xD, tail := 2, high := 0x9F }
  else if b < 0xF0 then some { bits := b - 0xE0, tail := 2 }
  else if b = 0xF0 then some { bits := 0, tail := 3, low := 0x90 }
  else if b < 0xF4 then some { bits := b - 0xF0, tail := 3 }
  else if b = 0xF4 then some { bits := 4, tail := 3, high := 0x8F }
  else none

/-- The character that replaces malformed bytes. -/
def replacementChar : Char := '�'

/-- Why bytes are no character. -/
inductive Utf8Reason where
  | badStart
  | badContinuation
  | dataEnds
  deriving DecidableEq, Repr

/-- The wording of a reason. -/
def Utf8Reason.message : Utf8Reason → String
  | .badStart => "invalid start byte"
  | .badContinuation => "invalid continuation byte"
  | .dataEnds => "unexpected end of data"

/-- Reads the rest of a character: `count` more bytes, the next of them from `low` to `high`. Returns the
    character, if there is one, and the number of bytes that belong together. -/
def utf8Tail (bits count low high : Nat) : List UInt8 → Except Utf8Reason Char × Nat
  | [] => (if count = 0 then .ok (Char.ofNat bits) else .error .dataEnds, 0)
  | b :: rest =>
    if count = 0 then (.ok (Char.ofNat bits), 0)
    else if low ≤ b.toNat ∧ b.toNat ≤ high then
      let (c, used) := utf8Tail (bits * 64 + (b.toNat - 0x80)) (count - 1) 0x80 0xBF rest
      (c, used + 1)
    else (.error .badContinuation, 0)

/-- Reads a character that starts with byte `b`: the character, if there is one, and the number of bytes
    after the first that belong to it. -/
def utf8Char (b : UInt8) (rest : List UInt8) : Except Utf8Reason Char × Nat :=
  match utf8Lead? b.toNat with
  | none => (.error .badStart, 0)
  | some lead => utf8Tail lead.bits lead.tail lead.low lead.high rest

/-- The text of some bytes, with replacements for what is malformed. -/
def decodeUtf8 (bytes : List UInt8) : List Char :=
  match bytes with
  | [] => []
  | b :: rest =>
    let (c, used) := utf8Char b rest
    c.toOption.getD replacementChar :: decodeUtf8 (rest.drop used)
termination_by bytes.length
decreasing_by (simp only [List.length_cons, List.length_drop]; omega)

/-- A malformed place: the byte at its start, its position, its length and what is wrong. -/
structure Utf8Fault where
  byte : UInt8
  position : Nat
  length : Nat
  reason : Utf8Reason
  deriving DecidableEq, Repr

/-- The wording of a fault. -/
def Utf8Fault.message (fault : Utf8Fault) : String :=
  let place :=
    if fault.length = 1 then
      "byte 0x" ++ String.ofList (hexPadded 2 fault.byte.toNat) ++ " in position "
        ++ toString fault.position
    else
      "bytes in position " ++ toString fault.position ++ "-"
        ++ toString (fault.position + fault.length - 1)
  "'utf-8' codec can't decode " ++ place ++ ": " ++ fault.reason.message

/-- The first malformed place of some bytes that start at a position. -/
def utf8Fault? (position : Nat) (bytes : List UInt8) : Option Utf8Fault :=
  match bytes with
  | [] => none
  | b :: rest =>
    match utf8Char b rest with
    | (.error reason, used) => some ⟨b, position, used + 1, reason⟩
    | (.ok _, used) => utf8Fault? (position + used + 1) (rest.drop used)
termination_by bytes.length
decreasing_by (simp only [List.length_cons, List.length_drop]; omega)

/-- The text of some bytes, if nothing of them is malformed. -/
def readUtf8 (bytes : List UInt8) : Except Utf8Fault (List Char) :=
  match utf8Fault? 0 bytes with
  | some fault => .error fault
  | none => .ok (decodeUtf8 bytes)

/-- A text in which every line ends in a line feed: a carriage return, with the line feed that may follow
    it, becomes one. -/
def unifyNewlines : List Char → List Char
  | '\r' :: '\n' :: rest => '\n' :: unifyNewlines rest
  | '\r' :: rest => '\n' :: unifyNewlines rest
  | c :: rest => c :: unifyNewlines rest
  | [] => []

end Unassigned.Text
