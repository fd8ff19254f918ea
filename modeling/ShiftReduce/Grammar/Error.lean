import ShiftReduce.Symbol
/-!
# What can be wrong with a grammar

Each constructor is one cause. A grammar is either malformed, in a way its author has to mend, or
uses a non-terminal that no rule defines.
-/

namespace ShiftReduce

/-- The reasons for which a grammar or a change to it is refused. -/
inductive GrammarError where
  /-- A rule was to define something that is no non-terminal of the grammar. -/
  | targetNotNonterminal (name : String)
  /-- A clause mentions a number that the symbol table does not know. -/
  | unknownSymbol (symbol : SymbolId)
  /-- There is no rule of this number. -/
  | unknownRule (rule : Nat)
  /-- The rule cannot be the accepted one, since other rules define its target too. -/
  | sharedTarget (rule : String) (count : Nat) (target : String)
  /-- There is nothing to accept. -/
  | noRules
  /-- A non-terminal has no rule; the rule that mentions it is given as text. -/
  | undefined (symbol : String) (referencedBy : Option String)
  deriving DecidableEq, Inhabited

/-- The error as it is shown. -/
def GrammarError.message : GrammarError → String
  | targetNotNonterminal name =>
    "invalid grammar: the target symbol `" ++ name ++ "` cannot be a terminal"
  | unknownSymbol symbol =>
    "invalid grammar: symbol #" ++ toString symbol ++ " is not known to this grammar"
  | unknownRule rule => "invalid grammar: unknown rule #" ++ toString rule
  | sharedTarget rule count target =>
    "invalid grammar: the rule `" ++ rule ++ "` cannot be used as target rule: " ++
      toString count ++ " rules target `" ++ target ++ "`"
  | noRules => "invalid grammar: the grammar has no rules"
  | undefined symbol none => "undefined symbol `" ++ symbol ++ "`"
  | undefined symbol (some rule) =>
    "undefined symbol `" ++ symbol ++ "` (referenced by `" ++ rule ++ "`)"

end ShiftReduce
