import ShiftReduce.Grammar.Shorthand
/-!
# The grammar of arithmetic

    E → E + E | E - E | E * E | E / E | E % E | E ^ E
      | - E | ( E ) | id ( args ) | num | id

The operators `+ -` bind weakest, then `* / %`, then the unary `-`, and `^` binds strongest. The
power associates to the right, all others to the left. Brackets vanish from the tree of a bracketed
expression, and the arguments of a call are a list separated by commas.
-/

namespace ShiftReduce.Calc

/-- The callback of the bracketed expression, which drops the leaves. -/
def dropLeaves (n : Node) : Node := { n with children := n.children.filter fun t => !t.isLeaf }

/-- The grammar of arithmetic expressions. -/
def grammar : Except GrammarError Grammar := do
  let g := Grammar.empty (some "arithmetic")
  let (e, g) := g.nonterminal "E"
  let (plus, g) := g.terminal "+"
  let (minus, g) := g.terminal "-"
  let (times, g) := g.terminal "*"
  let (divide, g) := g.terminal "/"
  let (rem, g) := g.terminal "%"
  let (power, g) := g.terminal "^"
  let (openBracket, g) := g.terminal "("
  let (closeBracket, g) := g.terminal ")"
  let (comma, g) := g.terminal ","
  let (num, g) := g.terminal "num"
  let (id, g) := g.terminal "id"
  let g := g.declareLevel 1 [plus, minus]
  let g := g.declareLevel 2 [times, divide, rem]
  let g := g.declareLevel 4 [power]
  let g ← [plus, minus, times, divide, rem].foldlM (fun g op => do
    let (_, g) ← g.addRule e [e, op, e] [.associativity .left]
    return g) g
  let (_, g) ← g.addRule e [e, power, e] [.associativity .right]
  let (_, g) ← g.addRule e [minus, e] [.named "negation", .level 3]
  let (_, g) ← g.addRule e [openBracket, e, closeBracket] [.action dropLeaves]
  let (g, args) := g.listOf true comma e
  let args ← args
  let (_, g) ← g.addRule e [id, openBracket, args, closeBracket] [.named "call"]
  let (_, g) ← g.addRule e [num] []
  let (_, g) ← g.addRule e [id] []
  return g

end ShiftReduce.Calc
