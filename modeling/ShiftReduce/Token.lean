import ShiftReduce.Symbol
/-!
# Tokens

What a lexer hands to the parser: terminals with their text and position, or an error.
-/

namespace ShiftReduce

/-- A lexed terminal. Lines and columns count from 1. -/
structure Token where
  symbol : SymbolId
  text : String
  line : Nat
  column : Nat
  deriving DecidableEq, Inhabited

/-- The token that stands for the end of input at a position. -/
def Token.endOfInput (line column : Nat) : Token :=
  ⟨SymbolId.eoi, "", line, column⟩

/-- The number of 32-bit words. -/
abbrev wordRange : Nat := 0x100000000

/-- The position just past a token on its line. Columns are 32-bit words. -/
def Token.finish (t : Token) : Nat × Nat :=
  (t.line, (t.column + t.text.length) % wordRange)

/-- Raised by a lexer and handed on by the parser as it is. -/
structure LexicalError where
  message : String
  line : Nat
  column : Nat
  deriving DecidableEq, Inhabited

/-- The error as it is shown: position, then message. -/
def LexicalError.text (e : LexicalError) : String :=
  "Lexical error : (" ++ toString e.line ++ ":" ++ toString e.column ++ ") : " ++ e.message

end ShiftReduce
