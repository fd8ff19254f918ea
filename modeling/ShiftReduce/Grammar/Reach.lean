import ShiftReduce.Grammar.Basic
/-!
# What a symbol reaches

From a symbol one comes to the non-terminals in the clauses of its rules, from these to the
non-terminals in the clauses of theirs, and so on. The search below goes depth first, takes the
symbol found last first, and visits every symbol once.

Two questions are answered by it: whether everything reachable from the accepted symbol is defined,
and which rules the part of a grammar below a symbol needs.
-/

namespace ShiftReduce

namespace Grammar

/-- A symbol to look at and the rule whose clause led to it. -/
structure Visit where
  symbol : SymbolId
  via : Option RuleId
  deriving DecidableEq

/-- The non-terminals in the clauses of the rules of a symbol, each with the rule it is in. -/
def mentions (g : Grammar) (s : SymbolId) : List Visit :=
  (g.rulesOf s).flatMap fun r =>
    (r.clause.filter g.symbols.isNonterminal).map fun t => ⟨t, some r.id⟩

/-- Puts a mentioned symbol on top of the stack unless it was seen before. -/
def discover (found : List Visit × List SymbolId) (v : Visit) : List Visit × List SymbolId :=
  if found.2.contains v.symbol then found else (v :: found.1, v.symbol :: found.2)

/-- Visits the symbols on the stack and what is discovered from them, and lists the visits in
order. Every visit uses one unit of fuel. -/
def explore (g : Grammar) : Nat → List Visit → List SymbolId → List Visit
  | 0, _, _ => []
  | _, [], _ => []
  | fuel + 1, v :: stack, seen =>
    let (stack, seen) := (g.mentions v.symbol).foldl discover (stack, seen)
    v :: g.explore fuel stack seen

/-- The visits of a search from a symbol. Every visited symbol but the first is mentioned in a
clause, and none is visited twice, so the clauses bound the number of visits. -/
def reach (g : Grammar) (start : SymbolId) : List Visit :=
  g.explore (1 + (g.rules.flatMap Rule.clause).length) [⟨start, none⟩] [start]

/-- The error for a visited symbol that no rule defines. -/
def undefinedAt (g : Grammar) (v : Visit) : GrammarError :=
  .undefined (g.symbols.name v.symbol) ((v.via.bind g.rule?).map g.ruleText)

/-- Succeeds when every non-terminal reachable from the accepted symbol is defined by a rule, and
names the first one met that is not. -/
def validate (g : Grammar) : Except GrammarError Unit :=
  match g.target with
  | none => .error .noRules
  | some target =>
    match (g.reach target).find? fun v => (g.rulesOf v.symbol).isEmpty with
    | some v => .error (g.undefinedAt v)
    | none => .ok ()

/-- The rules whose target is reachable from a symbol, in order. -/
def rulesBelow (g : Grammar) (s : SymbolId) : List Rule :=
  let visited := (g.reach s).map Visit.symbol
  g.rules.filter fun r => visited.contains r.target

end Grammar

end ShiftReduce
