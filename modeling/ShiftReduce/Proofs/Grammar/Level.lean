import ShiftReduce.Proofs.Automaton.Item
import ShiftReduce.Proofs.Grammar.Derivation
/-!
# Inherited levels and the automaton

Levels decide conflicts and nothing else: a grammar and the same grammar with its levels inherited
have one shape, so they have the same productions, the same automaton and the same derivations.
-/

namespace ShiftReduce

namespace Grammar

variable {g : Grammar}

lemma productions_inheritLevels (g : Grammar) (target : SymbolId) :
    g.inheritLevels.productions target = g.productions target :=
  productions_mapRules (keepsShape_inherited g) g target

lemma automaton_inheritLevels (g : Grammar) : g.inheritLevels.automaton = g.automaton :=
  automaton_mapRules (keepsShape_inherited g) g

lemma isDerivation_inheritLevels {tree : Tree} :
    g.inheritLevels.IsDerivation tree ↔ g.IsDerivation tree :=
  isDerivation_mapRules (keepsShape_inherited g)

/-- Without declared levels there is nothing to inherit. -/
lemma inherited_of_no_levels (hg : g.levels = []) {r : Rule} (hr : r.inheritedLevel = none) :
    g.inherited r = r := by
  have hown : ∀ r, g.ownLevel r = none := by
    intro r
    rw [ownLevel, List.findSome?_eq_none_iff]
    intro s _
    rw [level?, hg]
    exact ite_self _
  have hpassed : g.passedLevel r = none := by
    rw [passedLevel, List.findSome?_eq_none_iff]
    intro other _
    rw [hown]
    exact ite_self _
  rw [inherited, hown, hpassed, Option.or_none, ← hr]

lemma inheritLevels_of_no_levels (hg : g.levels = [])
    (hr : ∀ r ∈ g.rules, r.inheritedLevel = none) : g.inheritLevels = g := by
  have hrules : g.rules.map g.inherited = g.rules :=
    (List.map_congr_left fun r hmem => inherited_of_no_levels hg (hr r hmem)).trans
      (List.map_id g.rules)
  exact congrArg (fun rules => { g with rules }) hrules

/-- Keys are a matter of the shape of the grammar. -/
lemma KeysFit.mapRules {f : Rule → Rule} (h : g.KeysFit) (hf : Rule.KeepsShape f) :
    (g.mapRules f).KeysFit := by
  intro target ht
  rw [productions_mapRules hf]
  exact h target ht

lemma KeysFit.inheritLevels (h : g.KeysFit) : g.inheritLevels.KeysFit :=
  h.mapRules (keepsShape_inherited g)

end Grammar

end ShiftReduce
