import ShiftReduce.Automaton.Production
import ShiftReduce.Automaton.TerminalSet
import ShiftReduce.Automaton.Fixpoint
/-!
# First sets

For every non-terminal: the terminals that can begin what it derives, and whether it derives the
empty string. Both are the least solution of the equations that the productions give, reached by
iteration from nothing, so recursion of any kind between non-terminals needs no special care.
-/

namespace ShiftReduce

/-- What can begin a string of symbols, and whether the string can vanish. -/
structure FirstSet where
  terminals : TerminalSet
  nullable : Bool
  deriving DecidableEq

/-- Nothing is known to begin it, and it is not known to vanish. -/
def FirstSet.none : FirstSet := ⟨.empty, false⟩

instance : Inhabited FirstSet := ⟨FirstSet.none⟩

/-- Either of two alternatives. -/
def FirstSet.either (a b : FirstSet) : FirstSet :=
  ⟨a.terminals.union b.terminals, a.nullable || b.nullable⟩

/-- The first set of one string followed by another. -/
def FirstSet.followedBy (a b : FirstSet) : FirstSet :=
  if a.nullable then ⟨a.terminals.union b.terminals, b.nullable⟩ else a

/-- First sets by symbol number. -/
abbrev FirstSets := List FirstSet

namespace FirstSets

/-- The first set of a non-terminal. -/
def get (f : FirstSets) (s : SymbolId) : FirstSet := f.getD s FirstSet.none

/-- The first set of a single part. -/
def ofPart (f : FirstSets) : Part → FirstSet
  | .terminal s => ⟨.singleton s, false⟩
  | .nonterminal s => f.get s

/-- The first set of a string of parts. -/
def ofParts (f : FirstSets) : List Part → FirstSet
  | [] => ⟨.empty, true⟩
  | part :: rest => (f.ofPart part).followedBy (f.ofParts rest)

/-- The terminals that can come first in a string of parts followed by one of the lookaheads. -/
def ahead (f : FirstSets) (parts : List Part) (lookaheads : TerminalSet) : TerminalSet :=
  ((f.ofParts parts).followedBy ⟨lookaheads, false⟩).terminals

/-- Adds to every symbol what its productions give under the sets known so far. -/
def grow (ps : Productions) (f : FirstSets) : FirstSets :=
  (List.range ps.width).map fun s =>
    ps.list.toList.foldl
      (fun found p => if p.lhs = s then found.either (f.ofParts p.rhs) else found) (f.get s)

/-- The first sets of the non-terminals. A set can grow by every terminal and by vanishing, once
each, which bounds the number of rounds. -/
def compute (ps : Productions) : FirstSets :=
  untilStable (grow ps) (ps.width * (ps.width + 1) + 1) (List.replicate ps.width FirstSet.none)

end FirstSets

end ShiftReduce
