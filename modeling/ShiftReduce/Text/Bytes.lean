/-!
# Bytes

Strings of bytes as lists, their hexadecimal text, and numbers of a fixed width written with the
lowest byte first.
-/

namespace ShiftReduce

/-- A string of bytes. -/
abbrev Bytes := List UInt8

namespace Bytes

/-- The bytes of a text in UTF-8. -/
def ofText (s : String) : Bytes := s.toUTF8.data.toList

/-- The text that the bytes are the UTF-8 form of, if they are one. -/
def text? (b : Bytes) : Option String := String.fromUTF8? ⟨b.toArray⟩

/-- The bytes of a text whose characters all have numbers below 256, one byte for each. -/
def ofChars (cs : List Char) : Bytes := cs.map Char.toUInt8

/-- One character for each byte, of the number of the byte. -/
def toChars (b : Bytes) : List Char := b.map Char.ofUInt8

/-- The hexadecimal digit of a number below 16, in lower case. -/
def hexDigit (n : Nat) : Char :=
  if n < 10 then Char.ofNat (48 + n) else Char.ofNat (87 + n)

/-- Two hexadecimal digits for every byte. -/
def hex (b : Bytes) : String :=
  String.ofList (b.flatMap fun x => [hexDigit (x.toNat / 16), hexDigit (x.toNat % 16)])

/-- The number of a hexadecimal digit in either case. -/
def hexValue? (c : Char) : Option Nat :=
  if '0' ≤ c ∧ c ≤ '9' then some (c.toNat - 48)
  else if 'a' ≤ c ∧ c ≤ 'f' then some (c.toNat - 87)
  else if 'A' ≤ c ∧ c ≤ 'F' then some (c.toNat - 55)
  else none

/-- The lowest `width` bytes of a number, the lowest first. -/
def ofNat (width : Nat) (n : Nat) : Bytes :=
  match width with
  | 0 => []
  | width + 1 => (n % 256).toUInt8 :: ofNat width (n / 256)

/-- The number that the bytes write, the lowest first. -/
def toNat : Bytes → Nat
  | [] => 0
  | b :: rest => b.toNat + 256 * toNat rest

end Bytes

end ShiftReduce
