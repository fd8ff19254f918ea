import ShiftReduce.Symbol
/-!
# Sets of terminals

A set of symbol numbers as the bits of one natural number: symbol `s` is in the set when bit `s` is
set. Union is then the bitwise or, and equal sets are equal numbers.
-/

namespace ShiftReduce

/-- A finite set of symbol numbers. -/
structure TerminalSet where
  bits : Nat
  deriving DecidableEq

namespace TerminalSet

/-- The empty set. -/
def empty : TerminalSet := ⟨0⟩

instance : Inhabited TerminalSet := ⟨empty⟩

/-- The set of one symbol. -/
def singleton (s : SymbolId) : TerminalSet := ⟨1 <<< s⟩

/-- The symbols of either set. -/
def union (a b : TerminalSet) : TerminalSet := ⟨a.bits ||| b.bits⟩

/-- Is the symbol in the set? -/
def contains (a : TerminalSet) (s : SymbolId) : Bool := a.bits.testBit s

instance : Membership SymbolId TerminalSet := ⟨fun a s => a.contains s = true⟩

/-- The symbols of the set, ascending. -/
def toList (a : TerminalSet) : List SymbolId :=
  if a.bits = 0 then [] else (List.range (a.bits.log2 + 1)).filter a.contains

/-! ## The symbols of the sets built above -/

theorem ext {a b : TerminalSet} (h : ∀ s, a.contains s = b.contains s) : a = b := by
  cases a; cases b
  simp only [TerminalSet.mk.injEq]
  exact Nat.eq_of_testBit_eq h

theorem contains_empty (s : SymbolId) : empty.contains s = false := Nat.zero_testBit s

theorem contains_union (a b : TerminalSet) (s : SymbolId) :
    (a.union b).contains s = (a.contains s || b.contains s) :=
  Nat.testBit_or a.bits b.bits s

theorem contains_singleton (s t : SymbolId) : (singleton s).contains t = decide (s = t) := by
  simp only [singleton, contains, Nat.one_shiftLeft, Nat.testBit_two_pow]

end TerminalSet

end ShiftReduce
