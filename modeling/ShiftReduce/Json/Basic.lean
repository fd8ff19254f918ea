import ShiftReduce.Text.Bytes
/-!
# JSON values

A value keeps what was written: a number its digits, a string the characters between its quotes with
all escapes. Text is a list of characters of which each stands for one byte, so that a string need
not be valid UTF-8 as long as nobody asks what it says.

This module has the type, the compact text of a value, and the meaning of the written form of a
string.
-/

namespace ShiftReduce

/-- A JSON value. -/
inductive Json where
  | null
  | bool (value : Bool)
  /-- A number as it is written. -/
  | number (written : List Char)
  /-- A string as it is written, without the quotes. -/
  | string (written : List Char)
  | array (items : List Json)
  /-- The members of an object in order; keys as they are written. -/
  | object (members : List (List Char × Json))

instance : Inhabited Json := ⟨.null⟩

namespace Json

/-! ## The compact text -/

mutual

/-- The text of a value, without any blanks. -/
def text : Json → List Char
  | null => "null".toList
  | bool true => "true".toList
  | bool false => "false".toList
  | number written => written
  | string written => '"' :: (written ++ ['"'])
  | array items => '[' :: (itemsText items ++ [']'])
  | object members => '{' :: (membersText members ++ ['}'])

/-- The items of an array with commas between them. -/
def itemsText : List Json → List Char
  | [] => []
  | [item] => item.text
  | item :: rest => item.text ++ ',' :: itemsText rest

/-- The members of an object with commas between them. -/
def membersText : List (List Char × Json) → List Char
  | [] => []
  | [(key, value)] => '"' :: (key ++ '"' :: ':' :: value.text)
  | (key, value) :: rest =>
    '"' :: (key ++ '"' :: ':' :: (value.text ++ ',' :: membersText rest))

end

/-! ## What a string says -/

/-- A piece of a written string: a byte, or a UTF-16 unit given by its number. -/
inductive Piece where
  | byte (value : UInt8)
  | unit (value : Nat)

/-- The character that stands after a backslash for one other character. -/
def escaped? : Char → Option Char
  | '"' => some '"'
  | '\\' => some '\\'
  | '/' => some '/'
  | 'b' => some '\x08'
  | 'f' => some '\x0c'
  | 'n' => some '\n'
  | 'r' => some '\r'
  | 't' => some '\t'
  | _ => none

/-- The number that four hexadecimal digits write. -/
def unit? (a b c d : Char) : Option Nat :=
  match Bytes.hexValue? a, Bytes.hexValue? b, Bytes.hexValue? c, Bytes.hexValue? d with
  | some a, some b, some c, some d => some (((a * 16 + b) * 16 + c) * 16 + d)
  | _, _, _, _ => none

/-- The pieces of a written string. -/
def pieces? : List Char → Option (List Piece)
  | [] => some []
  | '\\' :: 'u' :: a :: b :: c :: d :: rest =>
    match unit? a b c d, pieces? rest with
    | some u, some ps => some (.unit u :: ps)
    | _, _ => none
  | '\\' :: c :: rest =>
    match escaped? c, pieces? rest with
    | some e, some ps => some (.byte e.toUInt8 :: ps)
    | _, _ => none
  | c :: rest => (pieces? rest).map (.byte c.toUInt8 :: ·)

/-- Is it the first unit of a pair that stands for one code point? -/
def isLeading (u : Nat) : Bool := decide (0xD800 ≤ u) && decide (u < 0xDC00)

/-- Is it the second unit of such a pair? -/
def isTrailing (u : Nat) : Bool := decide (0xDC00 ≤ u) && decide (u < 0xE000)

/-- The UTF-8 form of a code point. -/
def codePoint (n : Nat) : Bytes := Bytes.ofText (String.singleton (Char.ofNat n))

/-- The bytes that the pieces stand for. A unit of a pair has no meaning alone. -/
def bytes? : List Piece → Option Bytes
  | [] => some []
  | .byte b :: rest => (bytes? rest).map (b :: ·)
  | .unit u :: .unit v :: rest =>
    if isLeading u then
      if isTrailing v then
        (bytes? rest).map (codePoint (0x10000 + (u - 0xD800) * 0x400 + (v - 0xDC00)) ++ ·)
      else none
    else if isTrailing u then none
    else (bytes? (.unit v :: rest)).map (codePoint u ++ ·)
  | .unit u :: rest =>
    if isLeading u || isTrailing u then none else (bytes? rest).map (codePoint u ++ ·)

/-- The text that a written string stands for, if it stands for one. -/
def meaning? (written : List Char) : Option String :=
  (pieces? written).bind fun ps => (bytes? ps).bind Bytes.text?

end Json

end ShiftReduce
