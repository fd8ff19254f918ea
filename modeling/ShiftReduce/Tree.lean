import ShiftReduce.Token
/-!
# Parse trees

A leaf holds a shifted token. An inner node is made when a rule is reduced: it records the rule,
the symbol the rule defines and the subtrees of the rule's clause.

The two walks a caller sees, the list of leaves and the bracketed text, run over an explicit stack
of pending work, so that a deep tree needs no deep recursion. Beside each stands its definition by
recursion on the tree: `yield` for the leaves, `bracketed` for the text.
-/

namespace ShiftReduce

/-- The number of a rule: its position in the grammar. -/
abbrev RuleId := Nat

/-- A parse tree. -/
inductive Tree where
  | leaf (token : Token)
  | node (rule : RuleId) (symbol : SymbolId) (children : List Tree)

instance : Inhabited Tree := ⟨.leaf default⟩

/-- The top of an inner node, as the callback of a rule sees and changes it. -/
structure Node where
  rule : RuleId
  symbol : SymbolId
  children : List Tree

/-- The tree with this node on top. -/
def Node.toTree (n : Node) : Tree := .node n.rule n.symbol n.children

namespace Tree

/-! ## The root -/

/-- The symbol at the root. -/
def symbol : Tree → SymbolId
  | leaf token => token.symbol
  | node _ symbol _ => symbol

/-- The rule reduced at the root; a leaf has none. -/
def rule? : Tree → Option RuleId
  | leaf _ => none
  | node rule _ _ => some rule

/-- Is the tree a single leaf? -/
def isLeaf : Tree → Bool
  | leaf _ => true
  | node _ _ _ => false

/-- The subtrees below the root. -/
def children : Tree → List Tree
  | leaf _ => []
  | node _ _ children => children

/-- The token of a leaf, also seen through inner nodes that have one child each. -/
def token? : Tree → Option Token
  | leaf token => some token
  | node _ _ [child] => child.token?
  | node _ _ _ => none

/-! ## Definitions by recursion on the tree -/

mutual

/-- The leaves of a tree, left to right. -/
def yield : Tree → List Token
  | leaf token => [token]
  | node _ _ children => yieldAll children

/-- The leaves of a row of trees, left to right. -/
def yieldAll : List Tree → List Token
  | [] => []
  | tree :: rest => tree.yield ++ yieldAll rest

end

mutual

/-- The text of a tree: the token's text for a leaf; for an inner node an opening bracket and the
symbol's name, every child after a space, and a closing bracket. -/
def bracketed (symbols : SymbolTable) : Tree → String
  | leaf token => token.text
  | node _ symbol children =>
    "(" ++ symbols.name symbol ++ bracketedAll symbols children ++ ")"

/-- The texts of a row of trees, each after a space. -/
def bracketedAll (symbols : SymbolTable) : List Tree → String
  | [] => ""
  | tree :: rest => " " ++ tree.bracketed symbols ++ bracketedAll symbols rest

end

mutual

/-- The number of leaves and inner nodes of a tree. -/
def size : Tree → Nat
  | leaf _ => 1
  | node _ _ children => 1 + sizeAll children

/-- The number of leaves and inner nodes of a row of trees. -/
def sizeAll : List Tree → Nat
  | [] => 0
  | tree :: rest => tree.size + sizeAll rest

end

theorem sizeAll_append (xs ys : List Tree) : sizeAll (xs ++ ys) = sizeAll xs + sizeAll ys := by
  induction xs with
  | nil => simp [sizeAll]
  | cons x xs ih => simp [sizeAll, ih, Nat.add_assoc]

/-! ## The leaves by an explicit stack -/

/-- Takes the topmost pending tree: a leaf is put out, an inner node is replaced by its
children. -/
def leavesFrom : List Tree → List Token → List Token
  | [], found => found.reverse
  | leaf token :: pending, found => leavesFrom pending (token :: found)
  | node _ _ children :: pending, found => leavesFrom (children ++ pending) found
  termination_by pending => sizeAll pending
  decreasing_by
    · simp only [sizeAll, size]; omega
    · simp only [sizeAll, size, sizeAll_append]; omega

/-- The tokens of all leaves, left to right. -/
def leaves (tree : Tree) : List Token := leavesFrom [tree] []

/-! ## The text by an explicit stack -/

/-- A piece of pending output: a tree to write, or the closing bracket of an inner node. -/
inductive Pending where
  | write (tree : Tree)
  | close

/-- The size of a piece of pending output, which bounds the work left on it. -/
def Pending.size : Pending → Nat
  | write tree => 2 * tree.size
  | close => 1

/-- The size of all pending output. -/
def pendingSize : List Pending → Nat
  | [] => 0
  | piece :: rest => piece.size + pendingSize rest

/-- The trees of a row, to be written in order before what is already pending. -/
def writeAll (children : List Tree) (pending : List Pending) : List Pending :=
  children.map Pending.write ++ pending

theorem pendingSize_writeAll (children : List Tree) (pending : List Pending) :
    pendingSize (writeAll children pending) = 2 * sizeAll children + pendingSize pending := by
  induction children with
  | nil => simp [writeAll, sizeAll]
  | cons c cs ih =>
    simp only [writeAll, List.map_cons, List.cons_append, pendingSize, Pending.size, sizeAll] at *
    omega

/-- Writes the topmost piece. A space goes before every tree but the first. -/
def renderFrom (symbols : SymbolTable) : List Pending → Bool → String → String
  | [], _, out => out
  | .close :: pending, first, out => renderFrom symbols pending first (out ++ ")")
  | .write (leaf token) :: pending, first, out =>
    renderFrom symbols pending false (out ++ (if first then "" else " ") ++ token.text)
  | .write (node _ symbol children) :: pending, first, out =>
    renderFrom symbols (writeAll children (.close :: pending)) false
      (out ++ (if first then "" else " ") ++ "(" ++ symbols.name symbol)
  termination_by pending => pendingSize pending
  decreasing_by
    · simp only [pendingSize, Pending.size]; omega
    · simp only [pendingSize, Pending.size, size]; omega
    · simp only [pendingSize_writeAll, pendingSize, Pending.size, size]; omega

/-- The text of a tree as a bracketed expression, such as `(E (T 1) + (T 2))`. -/
def render (symbols : SymbolTable) (tree : Tree) : String :=
  renderFrom symbols [.write tree] true ""

end Tree

end ShiftReduce
