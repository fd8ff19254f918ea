import ShiftReduce.Automaton.FirstSet
/-!
# Items

An item is a production with a dot in its right-hand side and a set of lookaheads. Production and
dot are packed into one key: the number of the production times the stride, one more than the
length of the longest right-hand side, plus the number of parts before the dot. A key is a 32-bit
word.
-/

namespace ShiftReduce

/-- A production with a dot, packed as a key, and the terminals that may follow. -/
structure Item where
  key : Nat
  lookaheads : TerminalSet
  deriving DecidableEq, Inhabited

/-- What the construction of states reads: the productions, the stride of the item keys, and the
first sets. -/
structure Basis where
  productions : Productions
  stride : Nat
  firsts : FirstSets

/-- The basis of some productions. -/
def Productions.basis (ps : Productions) : Basis :=
  ⟨ps, ps.stride, FirstSets.compute ps⟩

namespace Basis

/-- The key of a production and the number of parts before the dot. -/
def key (b : Basis) (production dot : Nat) : Nat := (production * b.stride + dot) % wordRange

/-- The number of the production of a key. -/
def productionOf (b : Basis) (key : Nat) : Nat := key / b.stride

/-- The number of parts before the dot of a key. -/
def dotOf (b : Basis) (key : Nat) : Nat := key % b.stride

/-- The production of a key. -/
def production (b : Basis) (key : Nat) : Production :=
  (b.productions.get? (b.productionOf key)).getD default

/-- The parts after the dot. -/
def remaining (b : Basis) (key : Nat) : List Part :=
  (b.production key).rhs.drop (b.dotOf key)

/-- The items that begin the productions of a symbol. -/
def openings (b : Basis) (s : SymbolId) (lookaheads : TerminalSet) : List Item :=
  (b.productions.range s).map fun p => ⟨b.key p 0, lookaheads⟩

/-- The item with the dot moved over one part. -/
def advance (b : Basis) (item : Item) : Item :=
  ⟨b.key (b.productionOf item.key) (b.dotOf item.key + 1), item.lookaheads⟩

/-- The non-terminal after the dot, if there is one, with what can come after it. -/
def demand? (b : Basis) (item : Item) : Option (SymbolId × TerminalSet) :=
  match b.remaining item.key with
  | .nonterminal s :: rest => some (s, b.firsts.ahead rest item.lookaheads)
  | _ => none

end Basis

/-! ## Ascending lists of items -/

/-- Inserts an item before the first one of a greater key. -/
def Item.insert (item : Item) : List Item → List Item
  | [] => [item]
  | other :: rest =>
    if item.key ≤ other.key then item :: other :: rest else other :: insert item rest

/-- The items by ascending key. -/
def Item.sort (items : List Item) : List Item := items.foldr Item.insert []

end ShiftReduce
