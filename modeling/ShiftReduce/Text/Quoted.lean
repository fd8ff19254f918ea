import ShiftReduce.Text.Hidden
/-!
# Quoted text

Text between double quotes for people to read. A quote, a backslash, a tab, a line feed, a carriage
return and the character NUL are written with a backslash and a letter. Every other hidden character
is written as its code point in braces.
-/

namespace ShiftReduce.Text

/-- One character as it is written between quotes. -/
def quoteChar (c : Char) : String :=
  if c = '"' then "\\\""
  else if c = '\\' then "\\\\"
  else if c = '\t' then "\\t"
  else if c = '\n' then "\\n"
  else if c = '\r' then "\\r"
  else if c.toNat = 0 then "\\0"
  else if isHidden c then "\\u\x7b" ++ String.ofList (Nat.toDigits 16 c.toNat) ++ "\x7d"
  else c.toString

/-- The text between quotes. -/
def quoted (s : String) : String :=
  "\"" ++ String.join (s.toList.map quoteChar) ++ "\""

end ShiftReduce.Text
