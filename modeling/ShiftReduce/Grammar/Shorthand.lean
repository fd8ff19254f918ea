import ShiftReduce.Grammar.Basic
/-!
# Shorthands

Choice, option, repetition and separated lists, written out as ordinary rules of a fresh
non-terminal whose name tells what it stands for:

* one of `a, b`: `oneOf(a, b) → a`, `oneOf(a, b) → b`;
* an optional `a b`: `optional(a, b) → a b`, `optional(a, b) → ε`;
* `a` once or more: `oneOrMore(a) → a`, `oneOrMore(a) → oneOrMore(a) a`;
* `a` any number of times: the same two rules and `zeroOrMore(a) → ε`;
* a list: `listOf(a) → a`, `listOf(a) → listOf(a) sep a`, and `listOf(a) → ε` if it may be empty.

The non-terminal is interned first and the rules are added one after another, so that a rule that
is refused leaves the non-terminal and the rules before it in the grammar.
-/

namespace ShiftReduce

/-- A rule of a shorthand whose target is still to come. -/
structure Alternative where
  clause : List SymbolId
  settings : List RuleSetting

/-- An alternative without settings. -/
def Alternative.plain (clause : List SymbolId) : Alternative := ⟨clause, []⟩

/-- The callback of the recursive rule of a list: the items of the inner list, then the new item.
The separator goes. -/
def flattenList (n : Node) : Node :=
  let items :=
    match n.children.dropLast with
    | [] => []
    | .node _ _ inner :: _ => inner
    | .leaf token :: _ => [.leaf token]
  { n with children := items ++ n.children.getLast?.toList }

namespace Grammar

/-- Adds the alternatives of a symbol in order and stops at the first that is refused. -/
def addAlternatives (g : Grammar) (target : SymbolId) :
    List Alternative → Grammar × Except GrammarError Unit
  | [] => (g, .ok ())
  | a :: rest =>
    match g.addRule target a.clause a.settings with
    | .error e => (g, .error e)
    | .ok (_, g) => g.addAlternatives target rest

/-- Interns a fresh non-terminal and gives it its alternatives. -/
def define (g : Grammar) (name : String) (alternatives : SymbolId → List Alternative) :
    Grammar × Except GrammarError SymbolId :=
  let (s, g) := g.freshNonterminal name
  let (g, result) := g.addAlternatives s (alternatives s)
  (g, result.map fun _ => s)

/-- The names of some symbols as in `a, b, c`. -/
def nameList (g : Grammar) (symbols : List SymbolId) : String :=
  ", ".intercalate (symbols.map g.symbols.name)

/-- A choice between single symbols. -/
def oneOf (g : Grammar) (symbols : List SymbolId) : Grammar × Except GrammarError SymbolId :=
  g.define ("oneOf(" ++ g.nameList symbols ++ ")") fun _ =>
    symbols.map fun s => .plain [s]

/-- The symbols in a row, or nothing. -/
def optional (g : Grammar) (symbols : List SymbolId) : Grammar × Except GrammarError SymbolId :=
  g.define ("optional(" ++ g.nameList symbols ++ ")") fun _ =>
    [.plain symbols, .plain []]

/-- The symbols in a row, once or more. -/
def oneOrMore (g : Grammar) (symbols : List SymbolId) : Grammar × Except GrammarError SymbolId :=
  g.define ("oneOrMore(" ++ g.nameList symbols ++ ")") fun s =>
    [.plain symbols, .plain (s :: symbols)]

/-- The symbols in a row, any number of times. -/
def zeroOrMore (g : Grammar) (symbols : List SymbolId) : Grammar × Except GrammarError SymbolId :=
  g.define ("zeroOrMore(" ++ g.nameList symbols ++ ")") fun s =>
    [.plain symbols, .plain (s :: symbols), .plain []]

/-- Items with a separator between them. The node of a list has the items as its children. -/
def listOf (g : Grammar) (allowEmpty : Bool) (separator item : SymbolId) :
    Grammar × Except GrammarError SymbolId :=
  g.define ("listOf(" ++ g.symbols.name item ++ ")") fun s =>
    [.plain [item], ⟨[s, separator, item], [.action flattenList]⟩] ++
      if allowEmpty then [.plain []] else []

end Grammar

end ShiftReduce
