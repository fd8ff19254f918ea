import ShiftReduce.Proofs.Table.Built
/-!
# What a table is made from

A table is made from the shape of a grammar, from the levels in force and from the arbitrations. The
names and the callbacks of the rules, and where a level comes from, have no part in it. With all of
this taken away from the rules a grammar has the same table, under the same fingerprint.
-/

namespace ShiftReduce

/-- The rule as a table sees it, without name and callback and with its level in force given
explicitly. -/
def Rule.bare (r : Rule) : Rule :=
  { r with name := none, action := none, explicitLevel := some r.level, inheritedLevel := none }

lemma Rule.keepsShape_bare : Rule.KeepsShape Rule.bare :=
  ⟨fun _ => rfl, fun _ => rfl, fun _ => rfl⟩

/-- Grammars that arbitrate in the same way fill the rows of a state in the same way. -/
lemma Row.ofState_congr {g g' : Grammar} (h : g'.arbitrate = g.arbitrate) (b : Basis)
    (state : StateId) (st : State) : Row.ofState g' b state st = Row.ofState g b state st := by
  have hoffer : g'.offer = g.offer := by
    funext lookahead cell incoming
    simp only [Grammar.offer, Grammar.settle, h]
  have hput : Row.put g' = Row.put g := by
    funext state lookahead row incoming
    simp only [Row.put, hoffer]
  have hitem : Row.addItem g' = Row.addItem g := by
    funext b state st row item
    simp only [Row.addItem, hput]
  rw [Row.ofState, Row.ofState, hitem]

namespace Grammar

variable {g g' : Grammar} {target : SymbolId} {t : ActionTable}

lemma arbitrate_bare (g : Grammar) : (g.mapRules Rule.bare).arbitrate = g.arbitrate := by
  funext lookahead dest rule
  simp only [arbitrate, rule?_mapRules, Option.map_map]
  rfl

lemma encode_bare (g : Grammar) : (g.mapRules Rule.bare).encode = g.encode := by
  rw [encode, mapRules, List.length_map, List.flatMap_map]
  rfl

lemma automaton_table_bare (g : Grammar) (a : Automaton) :
    a.table (g.mapRules Rule.bare) = a.table g := by
  simp only [Automaton.table, Row.ofState_congr (arbitrate_bare g), fingerprint, encode_bare]
  rfl

lemma table_bare (g : Grammar) : (g.mapRules Rule.bare).table = g.table := by
  rw [table, automaton_mapRules Rule.keepsShape_bare, table]
  exact congrArg (fun make => g.automaton.map make) (funext (automaton_table_bare g))

lemma Builds.bare (h : g.Builds target t) : (g.mapRules Rule.bare).Builds target t where
  valid := h.valid.mapRules Rule.keepsShape_bare
  accepts := h.accepts
  keysFit := by
    rw [productions_mapRules Rule.keepsShape_bare]
    exact h.keysFit
  table_eq := by
    rw [productions_mapRules Rule.keepsShape_bare, automaton_table_bare]
    exact h.table_eq

end Grammar

end ShiftReduce
