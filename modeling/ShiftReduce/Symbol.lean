/-!
# Symbols and symbol tables

A grammar speaks of its symbols by number. A symbol table gives every number a kind and a name:
the number of a symbol is its position in the table. A terminal and a non-terminal may share a
name and are then different symbols.

Positions 0 and 1 are taken from the start: the end of input `$` and the mark `ε` of an empty
clause, both terminals. Interning only ever appends, so a number never changes its meaning.

Numbers have no bound here. With numbers of one word, as in `SymbolMap` and in `Narrow`, a table is
the same as long as it has room.
-/

namespace ShiftReduce

/-- The number of a symbol: its position in the symbol table. -/
abbrev SymbolId := Nat

/-- The end of input, written `$`. -/
abbrev SymbolId.eoi : SymbolId := 0

/-- The mark of an empty clause, written `ε`. -/
abbrev SymbolId.epsilon : SymbolId := 1

/-- Terminals come from the lexer, non-terminals are defined by rules. -/
inductive SymbolKind where
  | terminal
  | nonterminal
  deriving DecidableEq, Inhabited

/-- What a symbol number stands for. -/
structure Symbol where
  kind : SymbolKind
  name : String
  deriving DecidableEq, Inhabited

/-- The interned symbols; the entry at position `i` is symbol number `i`. -/
structure SymbolTable where
  entries : List Symbol
  deriving DecidableEq

namespace SymbolTable

/-- The table every grammar starts from: `$` and `ε`. -/
def initial : SymbolTable :=
  ⟨[⟨.terminal, "$"⟩, ⟨.terminal, "ε"⟩]⟩

instance : Inhabited SymbolTable := ⟨initial⟩

/-- The number of interned symbols, which is also the number the next new symbol gets. -/
def size (t : SymbolTable) : Nat := t.entries.length

/-! ## Looking up -/

/-- The entry of a symbol number, if it is known. -/
def get? (t : SymbolTable) (s : SymbolId) : Option Symbol := t.entries[s]?

/-- Is the symbol number known to the table? -/
def contains (t : SymbolTable) (s : SymbolId) : Bool := decide (s < t.size)

/-- The number of a symbol given by kind and name. -/
def find? (t : SymbolTable) (kind : SymbolKind) (name : String) : Option SymbolId :=
  t.entries.idxOf? ⟨kind, name⟩

/-- The name of a symbol; an unknown number is called `?`. -/
def name (t : SymbolTable) (s : SymbolId) : String :=
  match t.get? s with
  | some entry => entry.name
  | none => "?"

/-- The kind of a known symbol. -/
def kind? (t : SymbolTable) (s : SymbolId) : Option SymbolKind :=
  (t.get? s).map Symbol.kind

/-- Is this the number of a terminal? -/
def isTerminal (t : SymbolTable) (s : SymbolId) : Bool :=
  t.kind? s == some .terminal

/-- Is this the number of a non-terminal? -/
def isNonterminal (t : SymbolTable) (s : SymbolId) : Bool :=
  t.kind? s == some .nonterminal

/-- The known symbol numbers, ascending. -/
def ids (t : SymbolTable) : List SymbolId := List.range t.size

/-! ## Interning -/

/-- The number of the symbol of this kind and name, which is appended if it is new. The new number
is not cut to a word; `Narrow.intern` does that. -/
def intern (t : SymbolTable) (kind : SymbolKind) (name : String) : SymbolId × SymbolTable :=
  match t.find? kind name with
  | some s => (s, t)
  | none => (t.size, ⟨t.entries ++ [⟨kind, name⟩]⟩)

/-- The names tried for a new non-terminal: the base itself, then `base#2`, `base#3` and so on.
There is one more of them than the table has entries, so one is free. -/
def candidateNames (t : SymbolTable) (base : String) : List String :=
  base :: (List.range t.size).map fun n => base ++ "#" ++ toString (n + 2)

/-- The first candidate that is not yet the name of a non-terminal. -/
def freshName (t : SymbolTable) (base : String) : String :=
  ((t.candidateNames base).find? fun n => (t.find? .nonterminal n).isNone).getD base

/-- Interns a non-terminal under a name that no other non-terminal has. -/
def internFresh (t : SymbolTable) (base : String) : SymbolId × SymbolTable :=
  t.intern .nonterminal (t.freshName base)

end SymbolTable

end ShiftReduce
