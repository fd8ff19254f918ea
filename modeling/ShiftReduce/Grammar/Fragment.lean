import ShiftReduce.Grammar.Level
import ShiftReduce.Grammar.Reach
/-!
# Fragments

The fragment of a grammar for a symbol is a grammar that accepts the symbol. If a single rule
defines the symbol, the whole grammar serves, with that rule made the accepted one. Otherwise the
fragment is a grammar of its own: a fresh rule `start → symbol`, then the rules reachable from the
symbol in their order.
-/

namespace ShiftReduce

/-- The grammar that accepts a chosen symbol. -/
inductive Fragment where
  /-- The grammar itself, after its accepted rule was moved. -/
  | whole
  /-- A grammar of its own. -/
  | part (grammar : Grammar)

namespace Grammar

/-- The grammar of a fresh rule for the symbol and of the rules below it. -/
def extract (g : Grammar) (s : SymbolId) : Grammar :=
  let name := g.symbols.name s
  let (start, symbols) := g.symbols.internFresh ("<" ++ name ++ ">")
  let startRule := { Rule.plain 0 start [s] with name := some "start" }
  { name := g.name.map fun n => "Subgrammar of '" ++ n ++ "' targeting '" ++ name ++ "'"
    symbols
    rules := renumber (startRule :: g.rulesBelow s)
    levels := g.levels
    target := some start }

/-- The fragment for a symbol, and the grammar afterwards. Inherited levels are recomputed first,
also if no rule defines the symbol. -/
def fragment (g : Grammar) (s : SymbolId) : Grammar × Except GrammarError Fragment :=
  let g := g.inheritLevels
  match g.rulesOf s with
  | [] => (g, .error (.undefined (g.symbols.name s) none))
  | [rule] =>
    match g.acceptRule rule.id with
    | .ok g => (g, .ok .whole)
    | .error e => (g, .error e)
  | _ => (g, .ok (.part (g.extract s)))

/-- The grammar that a fragment stands for. -/
def resolve (g : Grammar) : Fragment → Grammar
  | .whole => g
  | .part h => h

end Grammar

end ShiftReduce
