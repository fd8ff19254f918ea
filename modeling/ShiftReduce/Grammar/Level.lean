import ShiftReduce.Grammar.Basic
/-!
# Inherited precedence

A rule takes over the level of the last terminal in its clause that has a declared level. A rule
that finds none in its own clause takes over the level that another rule, whose target its clause
mentions, found in its clause: one hop and no further. Among several such rules the one of the
highest number wins. A level given to a rule explicitly is neither replaced nor passed on.
-/

namespace ShiftReduce

namespace Grammar

/-- The level of the last terminal of the clause that has a declared one. -/
def ownLevel (g : Grammar) (r : Rule) : Option Nat :=
  r.clause.reverse.findSome? fun s => if g.symbols.isTerminal s then g.level? s else none

/-- The own level of the last rule that has one and whose target the clause mentions. -/
def passedLevel (g : Grammar) (r : Rule) : Option Nat :=
  g.rules.reverse.findSome? fun other =>
    if r.clause.contains other.target then g.ownLevel other else none

/-- Recomputes the inherited level of every rule. -/
def inheritLevels (g : Grammar) : Grammar :=
  { g with
    rules := g.rules.map fun r =>
      { r with inheritedLevel := (g.ownLevel r).or (g.passedLevel r) } }

/-- One line for every rule that inherits a level. -/
def levelLog (g : Grammar) : List String :=
  g.rules.filterMap fun r =>
    r.inheritedLevel.map fun level =>
      "DEBUG precedence level " ++ toString level ++ " : " ++ g.ruleText r

end Grammar

end ShiftReduce
