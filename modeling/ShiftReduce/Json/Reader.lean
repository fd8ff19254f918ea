import ShiftReduce.Json.Basic
import ShiftReduce.Text.Letter
/-!
# Reading JSON

The grammar is that of the standard, and nothing beyond it: no trailing commas, no leading zeros, no
control characters in strings. Blanks are the space, the tabulator and the two line ends.

A reader takes the text and returns what it read with the rest. The readers of values, items and
members call each other with a fuel that goes down by one at every call; twice the length of the
text is more than they need.
-/

namespace ShiftReduce.Json

/-- A blank between the parts of a value. -/
def isBlank (c : Char) : Bool := c == ' ' || c == '\t' || c == '\n' || c == '\r'

/-- The text from its first character that is no blank. -/
def skipBlanks (s : List Char) : List Char := s.dropWhile isBlank

/-! ## Numbers -/

/-- A row of digits, at least one. -/
def readDigits (s : List Char) : Option (List Char × List Char) :=
  match s.span Text.isAsciiDigit with
  | ([], _) => none
  | split => some split

/-- The part before a decimal point: zero, or a row of digits that does not begin with zero. -/
def readWhole : List Char → Option (List Char × List Char)
  | '0' :: rest => some (['0'], rest)
  | s => readDigits s

/-- A decimal point with digits, if there is a point. -/
def readFraction : List Char → Option (List Char × List Char)
  | '.' :: rest => (readDigits rest).map fun (ds, rest) => ('.' :: ds, rest)
  | s => some ([], s)

/-- The sign of an exponent, if there is one. -/
def readSign : List Char → List Char × List Char
  | '+' :: rest => (['+'], rest)
  | '-' :: rest => (['-'], rest)
  | s => ([], s)

/-- An exponent, if there is one. -/
def readExponent : List Char → Option (List Char × List Char)
  | c :: rest =>
    if c = 'e' ∨ c = 'E' then
      let (sign, rest) := readSign rest
      (readDigits rest).map fun (ds, rest) => (c :: (sign ++ ds), rest)
    else some ([], c :: rest)
  | [] => some ([], [])

/-- A number without its sign. -/
def readUnsigned (s : List Char) : Option (List Char × List Char) :=
  match readWhole s with
  | none => none
  | some (whole, s) =>
    match readFraction s with
    | none => none
    | some (fraction, s) =>
      (readExponent s).map fun (exponent, s) => (whole ++ fraction ++ exponent, s)

/-- A number. -/
def readNumber : List Char → Option (List Char × List Char)
  | '-' :: rest => (readUnsigned rest).map fun (written, rest) => ('-' :: written, rest)
  | s => readUnsigned s

/-! ## Strings -/

/-- A string up to its closing quote. -/
def readString : List Char → Option (List Char × List Char)
  | [] => none
  | '"' :: rest => some ([], rest)
  | '\\' :: 'u' :: a :: b :: c :: d :: rest =>
    if (unit? a b c d).isSome then
      (readString rest).map fun (written, rest) =>
        ('\\' :: 'u' :: a :: b :: c :: d :: written, rest)
    else none
  | '\\' :: c :: rest =>
    if (escaped? c).isSome then
      (readString rest).map fun (written, rest) => ('\\' :: c :: written, rest)
    else none
  | c :: rest =>
    if c.toNat < 32 then none
    else (readString rest).map fun (written, rest) => (c :: written, rest)

/-! ## Values -/

mutual

/-- A value, after any blanks. -/
def readValue : Nat → List Char → Option (Json × List Char)
  | 0, _ => none
  | fuel + 1, s =>
    match skipBlanks s with
    | 'n' :: 'u' :: 'l' :: 'l' :: rest => some (.null, rest)
    | 't' :: 'r' :: 'u' :: 'e' :: rest => some (.bool true, rest)
    | 'f' :: 'a' :: 'l' :: 's' :: 'e' :: rest => some (.bool false, rest)
    | '"' :: rest => (readString rest).map fun (written, rest) => (.string written, rest)
    | '[' :: rest =>
      match skipBlanks rest with
      | ']' :: rest => some (.array [], rest)
      | rest => (readItems fuel rest).map fun (items, rest) => (.array items, rest)
    | '{' :: rest =>
      match skipBlanks rest with
      | '}' :: rest => some (.object [], rest)
      | rest => (readMembers fuel rest).map fun (members, rest) => (.object members, rest)
    | rest => (readNumber rest).map fun (written, rest) => (.number written, rest)

/-- One or more items up to the closing bracket. -/
def readItems : Nat → List Char → Option (List Json × List Char)
  | 0, _ => none
  | fuel + 1, s =>
    match readValue fuel s with
    | none => none
    | some (item, rest) =>
      match skipBlanks rest with
      | ']' :: rest => some ([item], rest)
      | ',' :: rest => (readItems fuel rest).map fun (items, rest) => (item :: items, rest)
      | _ => none

/-- One or more members up to the closing brace. -/
def readMembers : Nat → List Char → Option (List (List Char × Json) × List Char)
  | 0, _ => none
  | fuel + 1, s =>
    match skipBlanks s with
    | '"' :: rest =>
      match readString rest with
      | none => none
      | some (key, rest) =>
        match skipBlanks rest with
        | ':' :: rest =>
          match readValue fuel rest with
          | none => none
          | some (value, rest) =>
            match skipBlanks rest with
            | '}' :: rest => some ([(key, value)], rest)
            | ',' :: rest =>
              (readMembers fuel rest).map fun (members, rest) => ((key, value) :: members, rest)
            | _ => none
        | _ => none
    | _ => none

end

/-- The value that a whole text writes, if it writes one. -/
def read? (s : List Char) : Option Json :=
  match readValue (2 * s.length + 2) s with
  | some (value, rest) => if (skipBlanks rest).isEmpty then some value else none
  | none => none

end ShiftReduce.Json
