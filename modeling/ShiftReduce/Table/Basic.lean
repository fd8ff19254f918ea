import ShiftReduce.Automaton.State
import ShiftReduce.Fingerprint
/-!
# Action tables

A table says for every state what to do on each symbol: shift and go to a state, reduce by a rule,
accept, or stop. An undefined cell and the action `fail` both stop the parser; `fail` was put there
by a tie between operators that may not be chained. A second table says which state is entered when
a non-terminal has been recognised.

Beside the two tables it is kept which terminals each state is prepared for, which error messages
list, and every clash that was resolved while the cells were filled.
-/

namespace ShiftReduce

/-- What to do in a state on a symbol. -/
inductive Action where
  | shift (dest : StateId)
  | reduce (rule : RuleId)
  | accept
  | fail
  deriving DecidableEq, Inhabited

/-- The action in words. -/
def Action.text : Action → String
  | shift dest => "shift " ++ toString dest
  | reduce rule => "reduce " ++ toString rule
  | accept => "accept"
  | fail => "fail"

/-- Two actions that met in one cell, and the one that was kept. -/
structure Conflict where
  state : StateId
  lookahead : SymbolId
  /-- The action that was in the cell. -/
  existing : Action
  incoming : Action
  chosen : Action
  deriving DecidableEq, Inhabited

/-- The tables of an automaton. A row belongs to a state, a column to a symbol. -/
structure ActionTable where
  fingerprint : Fingerprint
  /-- The number of columns. -/
  width : Nat
  actions : List (List (Option Action))
  gotos : List (List (Option StateId))
  /-- For every state the terminals with an action other than `fail`, ascending. -/
  expected : List (List SymbolId)
  conflicts : List Conflict
  deriving DecidableEq, Inhabited

namespace ActionTable

/-- The number of states. -/
def stateCount (t : ActionTable) : Nat := t.actions.length

/-- A cell of a table of optional entries; there is none out of range. -/
def cell? {α : Type} (rows : List (List (Option α))) (row column : Nat) : Option α :=
  (rows[row]?.bind fun cells => cells[column]?).join

/-- The action in a state on a symbol. -/
def action? (t : ActionTable) (state : StateId) (s : SymbolId) : Option Action :=
  cell? t.actions state s

/-- The state entered when a symbol has been recognised above a state. -/
def goto? (t : ActionTable) (state : StateId) (s : SymbolId) : Option StateId :=
  cell? t.gotos state s

/-- The terminals a state is prepared for. -/
def expectedIn (t : ActionTable) (state : StateId) : List SymbolId := t.expected.getD state []

/-- Do all parts have one row for every state, and all rows the declared width? -/
def isWellFormed (t : ActionTable) : Bool :=
  t.actions.length == t.gotos.length && t.actions.length == t.expected.length &&
    (t.actions.all fun row => row.length == t.width) &&
    (t.gotos.all fun row => row.length == t.width)

end ActionTable

end ShiftReduce
