import ShiftReduce.Tree
/-!
# Rules

A rule `target → clause` says that the symbols of the clause, in order, may stand for the target.
Beside that it carries what decides its conflicts, the precedence level and the arbitration, and an
optional callback that changes each node made by it.
-/

namespace ShiftReduce

/-- How operators of one level group. -/
inductive Associativity where
  | left
  | right
  | nonassoc
  deriving DecidableEq, Inhabited

/-- What wins where shifting and reducing have the same precedence. -/
inductive Arbitration where
  | shift
  | reduce
  | fail
  deriving DecidableEq, Inhabited

/-- Left-associative operators reduce first, right-associative ones shift on, and a
non-associative operator may not be followed by itself. -/
def Associativity.arbitration : Associativity → Arbitration
  | left => .reduce
  | right => .shift
  | nonassoc => .fail

/-- A rule of a grammar. -/
structure Rule where
  /-- The position of the rule in its grammar. -/
  id : RuleId
  target : SymbolId
  /-- The clause as declared; the empty clause is the single symbol `ε`. -/
  clause : List SymbolId
  name : Option String
  /-- Applied to every node made by this rule. -/
  action : Option (Node → Node)
  /-- The level given to the rule itself, which outranks an inherited one. -/
  explicitLevel : Option Nat
  /-- The level taken over from the terminals of the clause. -/
  inheritedLevel : Option Nat
  arbitration : Arbitration

namespace Rule

/-- A rule without settings. -/
def plain (id : RuleId) (target : SymbolId) (clause : List SymbolId) : Rule :=
  ⟨id, target, clause, none, none, none, none, .shift⟩

/-- Does the clause consist of `ε` alone? -/
def isEmpty (r : Rule) : Bool := r.clause.all (· == SymbolId.epsilon)

/-- The symbols that a parser finds on its stack for this rule. -/
def symbols (r : Rule) : List SymbolId := if r.isEmpty then [] else r.clause

/-- The number of symbols a reduction takes off the stack. -/
def arity (r : Rule) : Nat := r.symbols.length

/-- The level in force: the rule's own, else the inherited one, else 0. -/
def level (r : Rule) : Nat := (r.explicitLevel.or r.inheritedLevel).getD 0

/-- The rule as text: the target's name, an arrow, and the names of the clause. -/
def text (symbols : SymbolTable) (r : Rule) : String :=
  symbols.name r.target ++ " →" ++ String.join (r.clause.map fun s => " " ++ symbols.name s)

/-- The node for the subtrees of a clause, after the rule's callback. -/
def apply (r : Rule) (children : List Tree) : Node :=
  let node : Node := ⟨r.id, r.target, children⟩
  match r.action with
  | some action => action node
  | none => node

end Rule

/-- One setting of a rule that was just declared. -/
inductive RuleSetting where
  | named (name : String)
  | level (level : Nat)
  | associativity (assoc : Associativity)
  | preferShift
  | preferReduce
  | action (action : Node → Node)

/-- The rule with one setting changed. -/
def Rule.configure (r : Rule) : RuleSetting → Rule
  | .named name => { r with name := some name }
  | .level level => { r with explicitLevel := some level }
  | .associativity assoc => { r with arbitration := assoc.arbitration }
  | .preferShift => { r with arbitration := .shift }
  | .preferReduce => { r with arbitration := .reduce }
  | .action action => { r with action := some action }

end ShiftReduce
