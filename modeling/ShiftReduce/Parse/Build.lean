import ShiftReduce.Grammar.Fragment
import ShiftReduce.Table.Build
import ShiftReduce.Parse.Basic
/-!
# Parsers for a grammar

A parser accepts what its grammar accepts, or a symbol of its choice. The levels of the rules are
inherited from the terminals before the table is built.
-/

namespace ShiftReduce

namespace Grammar

/-- The parser of a grammar. -/
def parser (g : Grammar) : Except GrammarError Parser :=
  let g := g.inheritLevels
  g.table.map fun table => ⟨g, table⟩

/-- The parser that accepts a symbol, and the grammar afterwards. -/
def parserFor (g : Grammar) (s : SymbolId) : Grammar × Except GrammarError Parser :=
  let (g, fragment) := g.fragment s
  (g, fragment.bind fun f => (g.resolve f).parser)

end Grammar

end ShiftReduce
