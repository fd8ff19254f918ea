import ShiftReduce.Automaton.Basic
import ShiftReduce.Table.Cell
/-!
# Filling the tables

The rows of a state are filled item by item. Where a terminal follows the dot the item offers a
shift, where a non-terminal follows it fills a cell of the goto table, and where nothing follows it
offers the reduction by its rule on each of its lookaheads. The completed starting item offers to
accept at the end of input. The rule of an empty clause is also entered in the `ε` column, to which
the parser turns when a token has no action.
-/

namespace ShiftReduce

/-- The rows of one state while they are filled, and the clashes met so far. -/
structure Row where
  actions : List (Option Action)
  gotos : List (Option StateId)
  conflicts : List Conflict

namespace Row

/-- Rows without entries. -/
def blank (width : Nat) : Row := ⟨List.replicate width none, List.replicate width none, []⟩

/-- Offers an action to the cell of a lookahead and notes a clash. Columns out of range have no
cell. -/
def put (g : Grammar) (state : StateId) (lookahead : SymbolId) (row : Row) (incoming : Action) :
    Row :=
  match row.actions[lookahead]? with
  | none => row
  | some cell =>
    let next := g.offer lookahead cell incoming
    { row with
      actions := row.actions.set lookahead next
      conflicts := row.conflicts ++
        match cell, next with
        | some existing, some chosen =>
          if Grammar.clashes cell incoming then [⟨state, lookahead, existing, incoming, chosen⟩]
          else []
        | _, _ => [] }

/-- Enters the rule of an empty clause in the `ε` column. -/
def putFallback (row : Row) (rule : RuleId) : Row :=
  { row with actions := row.actions.modify SymbolId.epsilon fun cell => offerFallback cell rule }

/-- Fills in what one item of a state calls for. -/
def addItem (g : Grammar) (b : Basis) (state : StateId) (st : State) (row : Row) (item : Item) :
    Row :=
  let p := b.production item.key
  match b.remaining item.key with
  | part :: _ =>
    match part, st.target? part with
    | _, none => row
    | .terminal s, some dest => row.put g state s (.shift dest)
    | .nonterminal s, some dest => { row with gotos := row.gotos.set s (some dest) }
  | [] =>
    match p.rule with
    | none => row.put g state SymbolId.eoi .accept
    | some rule =>
      let row := item.lookaheads.toList.foldl (fun row s => row.put g state s (.reduce rule)) row
      if p.rhs.isEmpty then row.putFallback rule else row

/-- The rows of a state. -/
def ofState (g : Grammar) (b : Basis) (state : StateId) (st : State) : Row :=
  (st.items b).foldl (addItem g b state st) (blank b.productions.width)

/-- The terminals that have an action other than `fail`. -/
def expected (g : Grammar) (row : Row) : List SymbolId :=
  (List.range row.actions.length).filter fun s =>
    g.symbols.isTerminal s &&
      match row.actions[s]? with
      | some (some action) => action != .fail
      | _ => false

end Row

/-- The tables of an automaton. -/
def Automaton.table (g : Grammar) (a : Automaton) : ActionTable :=
  let rows := a.states.mapIdx fun i st => Row.ofState g a.basis i st
  { fingerprint := g.fingerprint
    width := a.basis.productions.width
    actions := rows.map Row.actions
    gotos := rows.map Row.gotos
    expected := rows.map (Row.expected g)
    conflicts := rows.flatMap Row.conflicts }

/-- The action table of a grammar. Levels are taken as they are. -/
def Grammar.table (g : Grammar) : Except GrammarError ActionTable :=
  g.automaton.map fun a => a.table g

end ShiftReduce
