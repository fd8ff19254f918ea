import ShiftReduce.Rule
import ShiftReduce.Grammar.Error
/-!
# Grammars

A grammar is a symbol table, a list of rules, the declared precedence levels of terminals, and the
symbol a parser accepts. Rules are numbered by position, and the accepted symbol is defined by
rule 0 as long as there is a rule at all.

Numbers of rules and symbols have no bound here. `Narrow` has the calls on grammars with numbers of
one word, which do the same as long as there is room for them.

Declared levels are kept in ascending order of the symbol, so that two grammars in which the same
levels were declared in a different order are equal.
-/

namespace ShiftReduce

/-- A context-free grammar with precedences. -/
structure Grammar where
  name : Option String
  symbols : SymbolTable
  rules : List Rule
  /-- The declared levels, at most one for a symbol, ascending by symbol. -/
  levels : List (SymbolId × Nat)
  /-- The symbol a parser accepts; the target of the first rule that was added. -/
  target : Option SymbolId

namespace Grammar

/-- The grammar without rules. -/
def empty (name : Option String) : Grammar :=
  ⟨name, .initial, [], [], none⟩

instance : Inhabited Grammar := ⟨empty none⟩

/-! ## Symbols -/

/-- Interns a terminal. -/
def terminal (g : Grammar) (name : String) : SymbolId × Grammar :=
  let (s, symbols) := g.symbols.intern .terminal name
  (s, { g with symbols })

/-- Interns a non-terminal. -/
def nonterminal (g : Grammar) (name : String) : SymbolId × Grammar :=
  let (s, symbols) := g.symbols.intern .nonterminal name
  (s, { g with symbols })

/-- Interns a non-terminal under a name of its own. -/
def freshNonterminal (g : Grammar) (base : String) : SymbolId × Grammar :=
  let (s, symbols) := g.symbols.internFresh base
  (s, { g with symbols })

/-! ## Rules -/

/-- The rule of a number. -/
def rule? (g : Grammar) (id : RuleId) : Option Rule := g.rules[id]?

/-- The rules that define a symbol, in order. -/
def rulesOf (g : Grammar) (s : SymbolId) : List Rule :=
  g.rules.filter fun r => r.target == s

theorem mem_rulesOf {g : Grammar} {s : SymbolId} {r : Rule} :
    r ∈ g.rulesOf s ↔ r ∈ g.rules ∧ r.target = s := by
  rw [rulesOf, List.mem_filter, beq_iff_eq]

/-- The text of a rule with the names of this grammar. -/
def ruleText (g : Grammar) (r : Rule) : String := r.text g.symbols

/-- Appends the rule `target → clause` with its settings. Only non-terminals can be defined and
only known symbols can be used; the first rule of a grammar fixes the accepted symbol. The number of
the rule is not cut to a word; `Narrow.addRule` does that. -/
def addRule (g : Grammar) (target : SymbolId) (clause : List SymbolId)
    (settings : List RuleSetting) : Except GrammarError (RuleId × Grammar) :=
  if g.symbols.isNonterminal target then
    match clause.find? fun s => !g.symbols.contains s with
    | some unknown => .error (.unknownSymbol unknown)
    | none =>
      let clause := if clause.isEmpty then [SymbolId.epsilon] else clause
      let id := g.rules.length
      let rule := settings.foldl Rule.configure (Rule.plain id target clause)
      .ok (id, { g with rules := g.rules ++ [rule], target := g.target.or (some target) })
  else
    .error (.targetNotNonterminal (g.symbols.name target))

/-- The rules with each number set to its position, of whatever size. -/
def renumber (rules : List Rule) : List Rule :=
  rules.mapIdx fun i r => { r with id := i }

/-- Makes a rule the accepted one: it moves to the front, and the others keep their order. Its
target must be defined by no other rule. -/
def acceptRule (g : Grammar) (id : RuleId) : Except GrammarError Grammar :=
  match g.rule? id with
  | none => .error (.unknownRule id)
  | some rule =>
    let count := (g.rulesOf rule.target).length
    if count = 1 then
      .ok { g with
        rules := renumber (rule :: g.rules.eraseIdx id)
        target := some rule.target }
    else
      .error (.sharedTarget (g.ruleText rule) count (g.symbols.name rule.target))

/-! ## Declared levels -/

/-- Sets the level of a symbol in an ascending list. -/
def putLevel (s : SymbolId) (level : Nat) : List (SymbolId × Nat) → List (SymbolId × Nat)
  | [] => [(s, level)]
  | (t, l) :: rest =>
    if s < t then (s, level) :: (t, l) :: rest
    else if s = t then (s, level) :: rest
    else (t, l) :: putLevel s level rest

/-- Declares the level of some symbols. A higher level binds tighter. -/
def declareLevel (g : Grammar) (level : Nat) (symbols : List SymbolId) : Grammar :=
  { g with levels := symbols.foldl (fun levels s => putLevel s level levels) g.levels }

/-- The declared level of a symbol, if there is one. -/
def level? (g : Grammar) (s : SymbolId) : Option Nat := g.levels.lookup s

/-- The declared level of a symbol, or 0. -/
def level (g : Grammar) (s : SymbolId) : Nat := (g.level? s).getD 0

/-! ## The symbols in use -/

/-- Does some rule define the symbol? -/
def defines (g : Grammar) (s : SymbolId) : Bool := g.rules.any fun r => r.target == s

/-- Is it a terminal other than `ε` that occurs in a clause? -/
def usesTerminal (g : Grammar) (s : SymbolId) : Bool :=
  s != SymbolId.epsilon && g.symbols.isTerminal s && g.rules.any fun r => r.clause.contains s

/-- The terminals that occur in clauses, without `ε`, ascending. -/
def usedTerminals (g : Grammar) : List SymbolId := g.symbols.ids.filter g.usesTerminal

/-- The symbols that rules define, ascending. -/
def definedSymbols (g : Grammar) : List SymbolId := g.symbols.ids.filter g.defines

/-- The symbols that rules define and the terminals they use, ascending. -/
def usedSymbols (g : Grammar) : List SymbolId :=
  g.symbols.ids.filter fun s => g.usesTerminal s || g.defines s

end Grammar

end ShiftReduce
