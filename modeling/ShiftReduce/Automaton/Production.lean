import ShiftReduce.Grammar.Reach
/-!
# Productions

For the construction of states the rules of a grammar are regrouped: the rules of a symbol come
together, the symbols in the order in which rules first define them, and each clause says of every
symbol whether it is to be shifted or to be expanded. An empty clause has no parts; an `ε` inside
another clause counts as a terminal.

Before all of them stands the production `^ → target` that no rule made. Its left-hand side is the
number just past the symbol table, which no clause can mention and which takes no column of a
table.

Productions speak of non-terminals by symbol. `Lowered` has the same productions by index, with a
map from every index to its symbol and its range.
-/

namespace ShiftReduce

/-- A symbol of a right-hand side. -/
inductive Part where
  | terminal (symbol : SymbolId)
  | nonterminal (symbol : SymbolId)
  deriving DecidableEq, Inhabited

/-- The number of the symbol. -/
def Part.symbol : Part → SymbolId
  | terminal s => s
  | nonterminal s => s

/-- A rule in the form that the construction of states uses. -/
structure Production where
  lhs : SymbolId
  rhs : List Part
  /-- The rule it stands for; the starting production stands for none. -/
  rule : Option RuleId
  deriving DecidableEq, Inhabited

/-- The productions of a grammar. -/
structure Productions where
  /-- Production 0 is `^ → target`. -/
  list : Array Production
  /-- The number of symbols of the grammar, which is the number of columns of a table. -/
  width : Nat

namespace Productions

/-- The production of a number. -/
def get? (ps : Productions) (p : Nat) : Option Production := ps.list[p]?

/-- The number of the first production of a symbol. -/
def first (ps : Productions) (s : SymbolId) : Nat :=
  ps.list.toList.findIdx fun p => p.lhs == s

/-- The number of productions of a symbol. -/
def count (ps : Productions) (s : SymbolId) : Nat :=
  ps.list.toList.countP fun p => p.lhs == s

/-- The numbers of the productions of a symbol, ascending. -/
def range (ps : Productions) (s : SymbolId) : List Nat := List.range' (ps.first s) (ps.count s)

/-- One more than the length of the longest right-hand side. -/
def stride (ps : Productions) : Nat :=
  ps.list.toList.foldl (fun n p => max n p.rhs.length) 0 + 1

end Productions

namespace Grammar

/-- A symbol as part of a right-hand side. -/
def part (g : Grammar) (s : SymbolId) : Part :=
  if g.symbols.isNonterminal s then .nonterminal s else .terminal s

/-- The production of a rule. -/
def production (g : Grammar) (r : Rule) : Production :=
  ⟨r.target, r.symbols.map g.part, some r.id⟩

/-- The symbols that rules define, in the order of their first rules. -/
def targets (g : Grammar) : List SymbolId :=
  (g.rules.map Rule.target).foldl (fun seen s => if seen.contains s then seen else seen ++ [s]) []

/-- The productions of a grammar that accepts `target`. -/
def productions (g : Grammar) (target : SymbolId) : Productions :=
  let start : Production := ⟨g.symbols.size, [g.part target], none⟩
  let grouped := g.targets.flatMap fun s => (g.rulesOf s).map g.production
  ⟨(start :: grouped).toArray, g.symbols.size⟩

end Grammar

end ShiftReduce
