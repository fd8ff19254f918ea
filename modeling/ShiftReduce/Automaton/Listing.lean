import ShiftReduce.Automaton.Basic
/-!
# The listing of an automaton

For every state its items with their lookaheads, then its transitions.
-/

namespace ShiftReduce

namespace Automaton

/-- The names of a set of terminals as in `a, b, c`. -/
def setText (symbols : SymbolTable) (set : TerminalSet) : String :=
  ", ".intercalate (set.toList.map symbols.name)

/-- An item as in `A → α . β [lookaheads]`; the left-hand side of the start is written `^`. -/
def itemText (symbols : SymbolTable) (b : Basis) (item : Item) : String :=
  let p := b.production item.key
  let dot := b.dotOf item.key
  let names := p.rhs.map fun part => " " ++ symbols.name part.symbol
  (if p.rule.isSome then symbols.name p.lhs else "^") ++ " →" ++
    String.join (names.take dot) ++ " ." ++ String.join (names.drop dot) ++
    " [" ++ setText symbols item.lookaheads ++ "]"

/-- One paragraph for a state. -/
def stateText (symbols : SymbolTable) (b : Basis) (i : StateId) (st : State) : String :=
  "State " ++ toString i ++ "\n" ++
    String.join ((st.items b).map fun item => "  " ++ itemText symbols b item ++ "\n") ++
    String.join (st.transitions.map fun t =>
      "  " ++ symbols.name t.1.symbol ++ " => " ++ toString t.2 ++ "\n") ++ "\n"

/-- The listing of all states. -/
def text (symbols : SymbolTable) (a : Automaton) : String :=
  String.join (a.states.mapIdx fun i st => stateText symbols a.basis i st)

/-- The line that tells the number of states. -/
def log (a : Automaton) : List String :=
  ["DEBUG " ++ toString a.states.length ++ " LALR(1) states"]

end Automaton

/-- The states of a grammar as text. -/
def Grammar.listStates (g : Grammar) : Except GrammarError String :=
  g.automaton.map fun a => a.text g.symbols

end ShiftReduce
