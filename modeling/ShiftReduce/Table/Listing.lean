import ShiftReduce.Table.Build
/-!
# The listing of conflicts

One paragraph for every clash that was resolved while a table was filled: the kind of clash, where
it happened, the two actions and the one that was kept. The same facts, a line each, make up the
log of a construction.
-/

namespace ShiftReduce

namespace Conflict

/-- The kind of a clash, by the actions that met. -/
def kind (c : Conflict) : String :=
  match c.existing, c.incoming with
  | .reduce _, .reduce _ => "reduce-reduce"
  | .accept, _ => "accept-reduce"
  | _, .accept => "accept-reduce"
  | _, _ => "shift-reduce"

/-- An action spelled out, with the text of the rule of a reduction. -/
def describe (g : Grammar) : Action → String
  | .reduce rule =>
    "reduce by (" ++ toString rule ++ ")" ++
      match g.rule? rule with
      | some r => " " ++ g.ruleText r
      | none => ""
  | .shift dest => "shift and go to state " ++ toString dest
  | .accept => "accept"
  | .fail => "error"

/-- The paragraph of a clash. -/
def text (g : Grammar) (c : Conflict) : String :=
  c.kind ++ " conflict at state " ++ toString c.state ++ " when the lookahead is " ++
    g.symbols.name c.lookahead ++ ":\n\n" ++
    "  " ++ describe g c.existing ++ "\n" ++
    "  " ++ describe g c.incoming ++ "\n" ++
    "\nresolved as: " ++ describe g c.chosen ++ "\n\n"

/-- The log line of a clash. -/
def log (g : Grammar) (c : Conflict) : String :=
  "DEBUG state " ++ toString c.state ++ ": conflict on `" ++ g.symbols.name c.lookahead ++
    "` between " ++ c.existing.text ++ " and " ++ c.incoming.text ++ ", chose " ++ c.chosen.text

end Conflict

namespace ActionTable

/-- The conflicts of a table, with the rules and names of a grammar. -/
def listConflicts (g : Grammar) (t : ActionTable) : String :=
  String.join (t.conflicts.map fun c => c.text g)

/-- The log of the construction of a table. -/
def log (g : Grammar) (t : ActionTable) : List String :=
  ["DEBUG " ++ toString t.stateCount ++ " LALR(1) states"] ++
    t.conflicts.map (fun c => c.log g) ++
    ["DEBUG action table: " ++ toString t.stateCount ++ " states x " ++ toString t.width ++
      " symbols, " ++ toString t.conflicts.length ++ " conflicts resolved"]

end ActionTable

end ShiftReduce
