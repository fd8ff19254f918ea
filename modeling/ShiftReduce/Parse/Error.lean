import ShiftReduce.Table.Basic
/-!
# Why a parse fails

The input can be at fault: a token that the state has no action for, or an error from the lexer. Or
the table can be: it names a rule that the grammar does not have, or lacks the state after a
reduction, which happens when the table was made for another grammar. The number of steps of a
parse is limited, and reaching the limit is a failure of its own.
-/

namespace ShiftReduce

/-- The reasons for which a parse fails. -/
inductive ParseError where
  /-- The token has no action. `expected` names the terminals that have one. -/
  | unexpected (token : Token) (tokenType : String) (expected : List String)
  | lexical (error : LexicalError)
  | missingRule (rule : RuleId)
  | missingGoto (state : StateId) (symbol : SymbolId)
  /-- The steps allowed for an input of this length are used up. -/
  | stepLimit
  deriving DecidableEq, Inhabited

/-- What would have been accepted, as part of a message. -/
def expectation : List String → String
  | [single] => single
  | several => "one of [" ++ ", ".intercalate several ++ "]"

/-- The error as it is shown. -/
def ParseError.message : ParseError → String
  | unexpected token tokenType expected =>
    "Parse error : (" ++ toString token.line ++ ":" ++ toString token.column ++ ")" ++
      if expected.isEmpty then ""
      else
        " : expected " ++ expectation expected ++ " ( got " ++ tokenType ++
          (if token.text.isEmpty then "" else " '" ++ token.text ++ "'") ++ " instead)"
  | lexical error => error.text
  | missingRule rule => "no rule #" ++ toString rule ++ " in the grammar driving the table"
  | missingGoto state symbol =>
    "no goto entry from state " ++ toString state ++ " on symbol #" ++ toString symbol
  | stepLimit => "the parser made no progress within its step limit"

end ShiftReduce
