import ShiftReduce.Proofs.Automaton.Discovery
import ShiftReduce.Proofs.Table.Clash
import ShiftReduce.Proofs.Table.Json
/-!
# Numbers in a table

Whatever grammar a table is built for, even one whose item keys wrap around, the table has a row of
the declared width for every state, and the numbers in it are those of states, symbols and rules. A
shift and a goto lead to a state, since every transition that is recorded leads to one. A reduction
is by the rule of some production. What the clashes and the lists of terminals name are columns.

Main statements: `Automaton.isWellFormed_table` and `Grammar.fits_automaton_table`.
-/

namespace ShiftReduce

/-! ## Transitions -/

namespace Discovery

variable {b : Basis} {d : Discovery} {st st' : State} {i : StateId}

/-- All transitions lead to states. -/
def Inside (d : Discovery) : Prop :=
  ∀ st ∈ d.states, ∀ move ∈ st.transitions, move.2 < d.states.length

lemma Inside.set (h : d.Inside) (hst : ∀ move ∈ st.transitions, move.2 < d.states.length)
    (queue : List StateId) : Inside ⟨d.states.set i st, queue⟩ := by
  intro st' hst'
  rw [List.length_set]
  rcases List.mem_or_eq_of_mem_set hst' with hold | rfl
  · exact h st' hold
  · exact hst

/-- A kernel is entered in a state. -/
lemma Inside.enter (h : d.Inside) (kernel : List Item) :
    (d.enter kernel).2.Inside ∧ (d.enter kernel).1 < (d.enter kernel).2.states.length := by
  rw [Discovery.enter]
  split
  · constructor
    · intro st hst move hmove
      rw [List.length_append]
      rcases List.mem_append.mp hst with hold | hnew
      · exact Nat.lt_add_right _ (h st hold move hmove)
      · rw [List.mem_singleton.mp hnew] at hmove
        exact absurd hmove List.not_mem_nil
    · simp
  · next i hi =>
    obtain ⟨hlt, -⟩ := List.findIdx?_eq_some_iff_getElem.mp hi
    dsimp only
    split
    · exact ⟨h, hlt⟩
    · refine ⟨h.set ?_ _, (List.length_set ..).symm ▸ hlt⟩
      -- merging leaves the transitions of the state alone
      rw [List.getD_eq_getElem?_getD, List.getElem?_eq_getElem hlt, Option.getD_some]
      exact h d.states[i] (List.getElem_mem hlt)

lemma Inside.follow (h : d.Inside) (i : StateId) (move : Part × List Item) :
    (follow i d move).Inside := by
  obtain ⟨hinside, hdest⟩ := h.enter move.2
  intro st hst
  rw [Discovery.follow, List.length_modify]
  obtain ⟨j, hj⟩ := List.mem_iff_getElem?.mp hst
  rw [Discovery.follow, List.getElem?_modify] at hj
  obtain ⟨st₀, hst₀, rfl⟩ := Option.map_eq_some_iff.mp hj
  have hold := hinside st₀ (List.mem_of_getElem? hst₀)
  split
  · rintro ⟨part, dest⟩ hmove
    rcases State.mem_transitions_setTarget hmove with ⟨-, rfl⟩ | hmove
    · exact hdest
    · exact hold _ hmove
  · exact hold

lemma Inside.visit (h : d.Inside) (b : Basis) (i : StateId) : (d.visit b i).Inside := by
  rw [Discovery.visit]
  split
  · exact h
  · next st hst =>
    have hstart : Inside { d with states := d.states.set i (st.close b) } := by
      refine h.set ?_ d.queue
      rw [State.transitions_close]
      exact h st (List.mem_of_getElem? hst)
    exact List.foldlRecOn _ _ hstart fun d hd move _ => hd.follow i move

/-- However long the discovery goes on. -/
lemma Inside.run (h : d.Inside) (b : Basis) (fuel : Nat) : (d.run b fuel).Inside := by
  induction fuel generalizing d with
  | zero => exact h
  | succ fuel ih =>
    rw [Discovery.run]
    split
    · exact h
    · next i queue _ =>
      have hrest : Inside { d with queue } := h
      exact ih (hrest.visit b i)

end Discovery

/-- A transition of an automaton leads to one of its states. -/
lemma Basis.target_lt {b : Basis} {st : State} {part : Part} {dest : StateId}
    (hst : st ∈ b.automaton.states) (h : st.target? part = some dest) :
    dest < b.automaton.states.length := by
  have hstart : Discovery.Inside ⟨[State.ofKernel b.startKernel], [0]⟩ := by
    intro st hst move hmove
    rw [List.mem_singleton.mp hst] at hmove
    exact absurd hmove List.not_mem_nil
  exact hstart.run b b.visitBound st hst _ (State.mem_of_lookup h)

/-! ## Rows -/

namespace Row

variable {g : Grammar} {b : Basis} {state : StateId} {st : State}

/-- A clash is noted for a column. -/
lemma lookahead_lt {x : Conflict} (hx : x ∈ (ofState g b state st).conflicts) :
    x.lookahead < b.productions.width := by
  refine (ofState_induction (P := fun row => row.actions.length = b.productions.width ∧
    ∀ x ∈ row.conflicts, x.lookahead < b.productions.width) g b state st ?blank ?put
    (fun _ _ _ _ ih => ih) ?fallback).2 x hx
  case blank => exact ⟨List.length_replicate, List.forall_mem_nil _⟩
  case put =>
    rintro row c a - ⟨hlength, ih⟩
    refine ⟨length_put.trans hlength, fun x hx => ?_⟩
    cases hcell : row.actions[c]? with
    | none =>
      rw [put_of_out_of_range a hcell] at hx
      exact ih x hx
    | some cell =>
      rw [conflicts_put a hcell] at hx
      rcases List.mem_append.mp hx with hx | hx
      · exact ih x hx
      · rw [(Grammar.of_mem_note hx).2.1, ← hlength]
        exact (List.getElem?_eq_some_iff.mp hcell).1
  case fallback =>
    rintro row rule - ⟨hlength, ih⟩
    exact ⟨(List.length_modify ..).trans hlength, ih⟩

end Row

/-! ## Tables -/

/-- There is a row for every state and a column for every symbol. -/
lemma Automaton.isWellFormed_table (a : Automaton) (g : Grammar) :
    (a.table g).isWellFormed = true := by
  have hrow : ∀ row ∈ a.states.mapIdx (Row.ofState g a.basis),
      row.Orderly a.basis.productions.width := by
    intro row hrow
    obtain ⟨i, hi, rfl⟩ := List.mem_mapIdx.mp hrow
    exact (Row.orderly_blank _).foldl
  simp only [ActionTable.isWellFormed, Automaton.table, List.length_map, beq_self_eq_true,
    Bool.and_true, Bool.true_and, List.all_map, Bool.and_eq_true, List.all_eq_true,
    Function.comp_apply, beq_iff_eq]
  exact ⟨fun row hmem => (hrow row hmem).actions_length,
    fun row hmem => (hrow row hmem).gotos_length⟩

namespace Grammar

variable {g : Grammar} {target : SymbolId} {st : State} {c : SymbolId} {a : Action}
  {t : ActionTable}

/-- What an item has for its rule is the rule of some production. -/
lemma exists_rule_of_production {key : Nat} {id : RuleId}
    (h : ((g.productions target).basis.production key).rule = some id) :
    ∃ r ∈ g.rules, r.id = id := by
  have hproductions : (g.productions target).basis.productions = g.productions target := rfl
  rw [Basis.production, hproductions] at h
  cases hp : (g.productions target).get? ((g.productions target).basis.productionOf key) with
  | none =>
    rw [hp] at h
    cases h
  | some p =>
    rw [hp, Option.getD_some] at h
    by_cases h0 : (g.productions target).basis.productionOf key = 0
    · rw [h0, productions_get?, List.getElem?_cons_zero, Option.some.injEq] at hp
      subst hp
      cases h
    · obtain ⟨r, hr, rfl⟩ := exists_rule_of_productions_get? hp h0
      exact ⟨r, hr, Option.some.inj h⟩

/-- The number in an action that a state calls for is a word. -/
lemma fits_of_state_calls (hrules : ∀ r ∈ g.rules, r.id < wordRange)
    (hstates : (g.automatonOf target).states.length ≤ wordRange)
    (hst : st ∈ (g.automatonOf target).states)
    (h : st.Calls (g.productions target).basis c a) : a.Fits := by
  obtain ⟨item, -, hcalls⟩ := h
  cases hcalls with
  | shift _ htarget => exact (Basis.target_lt hst htarget).trans_le hstates
  | accept => trivial
  | reduce _ hrule _ =>
    obtain ⟨r, hr, rfl⟩ := exists_rule_of_production hrule
    exact hrules r hr
  | fallback _ hrule _ =>
    obtain ⟨r, hr, rfl⟩ := exists_rule_of_production hrule
    exact hrules r hr

/-- The numbers in a table are words if those of rules, symbols and states are. -/
lemma fits_automaton_table (hrules : ∀ r ∈ g.rules, r.id < wordRange)
    (hwidth : g.symbols.size ≤ wordRange)
    (hstates : (g.automatonOf target).states.length ≤ wordRange) :
    ((g.automatonOf target).table g).Fits where
  width := hwidth.trans_lt (by decide)
  actions row hrow cell hcell a ha := by
    obtain ⟨row, hmem, rfl⟩ := List.mem_map.mp hrow
    obtain ⟨i, hi, rfl⟩ := List.mem_mapIdx.mp hmem
    obtain ⟨c, hc⟩ := List.mem_iff_getElem?.mp hcell
    obtain rfl : cell = some a := ha
    rcases Row.called_of_action hc with rfl | hcalls
    · trivial
    · exact fits_of_state_calls hrules hstates (List.getElem_mem hi) hcalls
  gotos row hrow cell hcell dest hdest := by
    obtain ⟨row, hmem, rfl⟩ := List.mem_map.mp hrow
    obtain ⟨i, hi, rfl⟩ := List.mem_mapIdx.mp hmem
    obtain ⟨s, hs⟩ := List.mem_iff_getElem?.mp hcell
    obtain rfl : cell = some dest := hdest
    exact (Basis.target_lt (List.getElem_mem hi) (Row.target_of_goto hs)).trans_le hstates
  expected l hl s hs := by
    obtain ⟨row, -, rfl⟩ := List.mem_map.mp hl
    exact (SymbolTable.lt_size_of_isTerminal (Row.mem_expected.mp hs).1).trans_le hwidth
  conflicts x hx := by
    obtain ⟨row, hrow, hx⟩ := List.mem_flatMap.mp hx
    obtain ⟨i, hi, rfl⟩ := List.mem_mapIdx.mp hrow
    obtain ⟨hstate, -, hactions⟩ := Row.of_mem_conflicts hx
    have hfits : ∀ a ∈ [x.existing, x.incoming, x.chosen], a.Fits := fun a ha => by
      rcases hactions a ha with rfl | hcalls
      · trivial
      · exact fits_of_state_calls hrules hstates (List.getElem_mem hi) hcalls
    simp only [List.forall_mem_cons] at hfits
    exact ⟨hstate ▸ hi.trans_le hstates, (Row.lookahead_lt hx).trans_le hwidth,
      hfits.1, hfits.2.1, hfits.2.2.1⟩

end Grammar

end ShiftReduce
