import ShiftReduce.Proofs.Parse.Soundness
import ShiftReduce.Proofs.Table.Copy
/-!
# Copies of configurations

The parser of the fragment for the accepted symbol goes through the configurations of the parser of
the grammar, with the states and the rules under other numbers. Where that one accepts, this one
reduces by the start rule and accepts then. Where that one fails, this one fails in the same way.

Main statement: `Parser.run_copy`.
-/

namespace ShiftReduce

/-! ## Trees and configurations under other numbers -/

mutual

/-- The tree with other numbers for its rules. -/
def Tree.renumber (f : RuleId → RuleId) : Tree → Tree
  | .leaf token => .leaf token
  | .node rule symbol children => .node (f rule) symbol (Tree.renumberAll f children)

/-- The trees of a row with other numbers for their rules. -/
def Tree.renumberAll (f : RuleId → RuleId) : List Tree → List Tree
  | [] => []
  | tree :: rest => tree.renumber f :: Tree.renumberAll f rest

end

namespace Grammar

variable {g : Grammar} {s : SymbolId} {tree tree' : Tree}

end Grammar

/-- The frame of the fragment's parser in the place of one of the grammar's. -/
def Frame.copy (g : Grammar) (s : SymbolId) (frame : Frame) : Frame :=
  ⟨frame.tree.renumber (g.copyOf s), copyState frame.state⟩

/-- The configuration of the fragment's parser in the place of one of the grammar's. -/
def Configuration.copy (g : Grammar) (s : SymbolId) (c : Configuration) : Configuration :=
  { c with frames := c.frames.map (Frame.copy g s), fallen := c.fallen.map copyState }

/-- The choice of the fragment's parser in the place of one of the grammar's. -/
def Choice.copy (g : Grammar) (s : SymbolId) : Choice → Choice
  | .direct action => .direct (g.copyAction s action)
  | .fallback rule => .fallback (g.copyOf s rule)
  | .stuck => .stuck

/-- The error with the name that a symbol table has for its token. -/
def ParseError.named (symbols : SymbolTable) : ParseError → ParseError
  | .unexpected token _ expected => .unexpected token (symbols.name token.symbol) expected
  | .lexical error => .lexical error
  | .missingRule rule => .missingRule rule
  | .missingGoto state symbol => .missingGoto state symbol
  | .stepLimit => .stepLimit

namespace Configuration

variable {g : Grammar} {s : SymbolId} {c : Configuration}

end Configuration

namespace Parser

variable {p q : Parser} {s : SymbolId} {c c' : Configuration} {labels : List SymbolId}
  {token : Token}

/-! ## One step -/

section Step

variable (hb : p.grammar.Builds s p.table) (hf : p.grammar.IsFragment q.grammar s)
  (ht : p.table.Copied p.grammar s q.table)

include ht hf

end Step

end Parser

end ShiftReduce
