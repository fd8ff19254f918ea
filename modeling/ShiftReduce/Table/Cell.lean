import ShiftReduce.Table.Basic
/-!
# Cells

What becomes of a cell when one action after another is offered to it. Between shifting and
reducing the higher level wins; on a tie the arbitration of the rule decides, and may leave the
cell at `fail`, which nothing replaces. Between two reductions the lower rule wins, and accepting
wins over everything.
-/

namespace ShiftReduce

namespace Grammar

/-- Shifting against reducing by a rule: the level of the terminal, the level of the rule, and on
a tie the rule's arbitration. -/
def arbitrate (g : Grammar) (lookahead : SymbolId) (dest : StateId) (rule : RuleId) : Action :=
  let level := (g.rule? rule).map Rule.level |>.getD 0
  let arbitration := (g.rule? rule).map Rule.arbitration |>.getD .shift
  if g.level lookahead > level then .shift dest
  else if level > g.level lookahead then .reduce rule
  else match arbitration with
    | .shift => .shift dest
    | .reduce => .reduce rule
    | .fail => .fail

/-- The action kept of two different ones. -/
def settle (g : Grammar) (lookahead : SymbolId) (existing incoming : Action) : Action :=
  match existing, incoming with
  | .shift dest, .reduce rule => g.arbitrate lookahead dest rule
  | .reduce rule, .shift dest => g.arbitrate lookahead dest rule
  | .reduce a, .reduce b => .reduce (min a b)
  | .accept, _ => .accept
  | _, .accept => .accept
  | existing, _ => existing

/-- Does the offer clash with what is in the cell? It does not if the cell is empty, holds the same
action or was left at `fail`. -/
def clashes (cell : Option Action) (incoming : Action) : Bool :=
  match cell with
  | none => false
  | some existing => existing != incoming && existing != .fail

/-- The cell after an action was offered to it. -/
def offer (g : Grammar) (lookahead : SymbolId) (cell : Option Action) (incoming : Action) :
    Option Action :=
  match cell with
  | none => some incoming
  | some existing =>
    if clashes cell incoming then some (g.settle lookahead existing incoming) else cell

end Grammar

/-- The cell of the `ε` column after the rule of an empty clause was offered to it: the lower rule
stays. -/
def offerFallback (cell : Option Action) (rule : RuleId) : Option Action :=
  match cell with
  | none => some (.reduce rule)
  | some (.reduce other) => if rule < other then some (.reduce rule) else cell
  | _ => cell

end ShiftReduce
