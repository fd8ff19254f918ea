import ShiftReduce.Proofs.Automaton.Lalr
import ShiftReduce.Proofs.Grammar.Level
import ShiftReduce.Proofs.Table.Row
/-!
# Tables built for a grammar

What the cells of a table say about the states of the automaton it was built from, and the other way
around. A shift follows a transition over a terminal, a reduction stands for a complete item, and
accepting for the complete item of `^`; a goto cell holds the state entered over a non-terminal.
-/

namespace ShiftReduce

/-- The table is the one built for the grammar, which accepts `target`. -/
structure Grammar.Builds (g : Grammar) (target : SymbolId) (t : ActionTable) : Prop where
  valid : g.Valid
  accepts : g.target = some target
  keysFit : (g.productions target).KeysFit
  table_eq : t = (g.productions target).basis.automaton.table g

/-- The cells of a table are those of the rows of its states. -/
lemma Automaton.action?_table (a : Automaton) (g : Grammar) (state : StateId) (c : SymbolId) :
    (a.table g).action? state c = (a.states[state]?).bind fun st =>
      ((Row.ofState g a.basis state st).actions[c]?).join := by
  rw [ActionTable.action?, ActionTable.cell?, Automaton.table]
  simp only [List.getElem?_map, List.getElem?_mapIdx]
  cases a.states[state]? <;> rfl

namespace Grammar

variable {g : Grammar} {target : SymbolId} {t : ActionTable}

lemma table_eq_ok (ht : g.table = .ok t) : ∃ target, g.target = some target ∧
    t = (g.productions target).basis.automaton.table g := by
  rw [table] at ht
  cases ha : g.automaton with
  | error e => simp [ha, Except.map] at ht
  | ok a =>
    rw [ha] at ht
    rw [automaton] at ha
    split at ha
    · simp at ha
    · simp at ha
    · next target _ htarget =>
      rw [← Except.ok.inj ha] at ht
      exact ⟨target, htarget, (Except.ok.inj ht).symm⟩

lemma exists_builds (hg : g.Valid) (hk : g.KeysFit) (ht : g.table = .ok t) :
    ∃ target, g.Builds target t := by
  obtain ⟨target, htarget, heq⟩ := table_eq_ok ht
  exact ⟨target, hg, htarget, hk target htarget, heq⟩

/-- The automaton of a grammar that accepts `target`. -/
abbrev automatonOf (g : Grammar) (target : SymbolId) : Automaton :=
  (g.productions target).basis.automaton

namespace Builds

variable {i : Dotted} {state : StateId} {st : State} {s c : SymbolId} {a : Action}
  {dest : StateId} {prod : Production} {β : List Part}

lemma proper (h : g.Builds target t) : (g.productions target).Proper target :=
  h.valid.proper_productions h.accepts

lemma isLalr (h : g.Builds target t) : (g.automatonOf target).IsLalr (g.productions target) :=
  Productions.isLalr_automaton h.proper h.keysFit

/-! ## Productions and rules -/

lemma exists_rule (h : g.Builds target t)
    (hp : (g.productions target).get? i.production = some prod) {id : RuleId}
    (hrule : prod.rule = some id) :
    ∃ r, g.rule? id = some r ∧ g.production r = prod ∧ i.production ≠ 0 := by
  have hne : i.production ≠ 0 := by
    intro h0
    rw [h0, h.proper.start, Option.some.injEq] at hp
    rw [← hp] at hrule
    cases hrule
  obtain ⟨r, hr, rfl⟩ := exists_rule_of_productions_get? hp hne
  cases hrule
  exact ⟨r, h.valid.rule?_id hr, rfl, hne⟩

/-- The parts of a production are the parts of its symbols. -/
lemma part_symbol_of_mem (h : g.Builds target t)
    (hp : (g.productions target).get? i.production = some prod) {part : Part}
    (hpart : part ∈ prod.rhs) : g.part part.symbol = part :=
  h.valid.part_symbol_of_mem h.accepts hp hpart

/-! ## Items of a state -/

/-- The items of a state are those of the closure of its kernel, with their productions. -/
lemma exists_item (h : g.Builds target t) (hst : st ∈ (g.automatonOf target).states)
    (hi : i ∈ (g.productions target).closure (st.kernelSet (g.productions target))) :
    ∃ item ∈ st.items (g.productions target).basis,
      (g.productions target).basis.dotted item.key = i ∧
      (g.productions target).get? i.production =
        some ((g.productions target).basis.production item.key) := by
  have hmem := hi
  rw [← h.isLalr.items st hst] at hmem
  obtain ⟨key, hkey, rfl⟩ := hmem
  obtain ⟨item, hitem, rfl⟩ := List.mem_map.mp hkey
  obtain ⟨prod, hp, -⟩ := (h.isLalr.reachable st hst).isDotted h.proper hi
  exact ⟨item, hitem, rfl, by rw [hp, Productions.production_eq hp]⟩

lemma dotted_mem_closure (h : g.Builds target t) (hst : st ∈ (g.automatonOf target).states)
    {item : Item} (hitem : item ∈ st.items (g.productions target).basis) :
    (g.productions target).basis.dotted item.key ∈
      (g.productions target).closure (st.kernelSet (g.productions target)) := by
  rw [← h.isLalr.items st hst]
  exact ⟨item.key, List.mem_map_of_mem hitem, rfl⟩

/-- A transition is taken over the part after the dot of some item. -/
lemma exists_rest_of_target (h : g.Builds target t)
    (hst : st ∈ (g.automatonOf target).states) {part : Part}
    (htarget : st.target? part = some dest) :
    ∃ st', (g.automatonOf target).states[dest]? = some st' ∧
      st'.kernelSet (g.productions target) = (g.productions target).goto
        ((g.productions target).closure (st.kernelSet (g.productions target))) part := by
  obtain ⟨st', hst', -, hset⟩ := (h.isLalr.goto st hst part dest).mp htarget
  exact ⟨st', hst', hset⟩

lemma part_symbol_of_target (h : g.Builds target t) (hst : st ∈ (g.automatonOf target).states)
    {part : Part} (htarget : st.target? part = some dest) : g.part part.symbol = part := by
  obtain ⟨-, -, ⟨_, i, -, β, hrest, -⟩, -⟩ := (h.isLalr.goto st hst part dest).mp htarget
  obtain ⟨prod, hp, hpart, -⟩ := Productions.exists_production_of_rest hrest
  exact h.part_symbol_of_mem hp (List.mem_of_getElem? hpart)

/-- There is a transition over the part after the dot of every item. -/
lemma exists_target (h : g.Builds target t) (hst : st ∈ (g.automatonOf target).states)
    (hi : i ∈ (g.productions target).closure (st.kernelSet (g.productions target)))
    {part : Part} (hrest : (g.productions target).rest i = part :: β) :
    ∃ dest, st.target? part = some dest := by
  have hne : ((g.productions target).goto
      ((g.productions target).closure (st.kernelSet (g.productions target))) part).Nonempty :=
    ⟨_, i, hi, β, hrest, rfl⟩
  obtain ⟨st', hst', hset⟩ := h.isLalr.complete _ (.goto (h.isLalr.reachable st hst) hne)
  obtain ⟨dest, hdest⟩ := List.mem_iff_getElem?.mp hst'
  exact ⟨dest, (h.isLalr.goto st hst part dest).mpr ⟨st', hdest, hne, hset⟩⟩

/-! ## What a state calls for -/

lemma calls_shift_iff (h : g.Builds target t) (hst : st ∈ (g.automatonOf target).states) :
    st.Calls (g.productions target).basis c (.shift dest) ↔
      st.target? (.terminal c) = some dest := by
  constructor
  · rintro ⟨item, -, hcalls⟩
    cases hcalls with
    | shift _ htarget => exact htarget
  · intro htarget
    obtain ⟨st', -, ⟨_, i, hi, β, hrest, -⟩, -⟩ := (h.isLalr.goto st hst _ dest).mp htarget
    obtain ⟨item, hitem, rfl, -⟩ := h.exists_item hst hi
    rw [← Productions.remaining_eq_rest] at hrest
    exact ⟨item, hitem, .shift hrest htarget⟩

/-- A reduction by a rule stands for the complete item of the rule. -/
lemma of_calls_reduce (h : g.Builds target t) (hst : st ∈ (g.automatonOf target).states)
    {id : RuleId} (hcalls : st.Calls (g.productions target).basis c (.reduce id)) :
    ∃ i ∈ (g.productions target).closure (st.kernelSet (g.productions target)), ∃ r,
      g.rule? id = some r ∧ (g.productions target).get? i.production = some (g.production r) ∧
      i.production ≠ 0 ∧ i.dot = r.arity := by
  obtain ⟨item, hitem, hcalls⟩ := hcalls
  have hi := h.dotted_mem_closure hst hitem
  obtain ⟨prod, hp, hdot⟩ := (h.isLalr.reachable st hst).isDotted h.proper hi
  have hprod := Productions.production_eq hp
  have hboth : (g.productions target).basis.remaining item.key = [] ∧ prod.rule = some id := by
    cases hcalls with
    | reduce hrest hrule _ => exact ⟨hrest, hprod ▸ hrule⟩
    | fallback hrest hrule _ => exact ⟨hrest, hprod ▸ hrule⟩
  obtain ⟨r, hr, rfl, hne⟩ := h.exists_rule hp hboth.2
  refine ⟨_, hi, r, hr, hp, hne, ?_⟩
  have hrest := hboth.1
  rw [Productions.remaining_eq_rest, Productions.rest_eq hp, List.drop_eq_nil_iff] at hrest
  have hlength : (g.production r).rhs.length = r.arity := by simp [production, Rule.arity]
  omega

/-- Accepting stands for the complete item of `^`, at the end of input. -/
lemma of_calls_accept (h : g.Builds target t) (hst : st ∈ (g.automatonOf target).states)
    (hcalls : st.Calls (g.productions target).basis c .accept) :
    c = SymbolId.eoi ∧
      ⟨0, 1⟩ ∈ (g.productions target).closure (st.kernelSet (g.productions target)) := by
  obtain ⟨item, hitem, hcalls⟩ := hcalls
  have hi := h.dotted_mem_closure hst hitem
  obtain ⟨prod, hp, hdot⟩ := (h.isLalr.reachable st hst).isDotted h.proper hi
  have hprod := Productions.production_eq hp
  cases hcalls with
  | accept hrest hrule =>
    refine ⟨rfl, ?_⟩
    -- every production but the first has a rule
    have h0 : ((g.productions target).basis.dotted item.key).production = 0 := by
      by_contra hne
      obtain ⟨r, -, rfl⟩ := exists_rule_of_productions_get? hp hne
      rw [hprod] at hrule
      cases hrule
    rw [h0, h.proper.start, Option.some.injEq] at hp
    subst hp
    rw [Productions.remaining_eq_rest, Productions.rest_eq (h0 ▸ h.proper.start),
      List.drop_eq_nil_iff] at hrest
    simp only [List.length_singleton] at hrest hdot
    have hdotted : (g.productions target).basis.dotted item.key = ⟨0, 1⟩ := by
      cases hd : (g.productions target).basis.dotted item.key with
      | mk p d =>
        simp only [hd] at h0 hrest hdot
        rw [h0, Nat.le_antisymm hdot hrest]
    exact hdotted ▸ hi

/-- A complete item calls for the reduction by its rule on its lookaheads. -/
lemma calls_reduce (h : g.Builds target t) (hst : st ∈ (g.automatonOf target).states) {r : Rule}
    (hi : i ∈ (g.productions target).closure (st.kernelSet (g.productions target)))
    (hp : (g.productions target).get? i.production = some (g.production r))
    (hdot : i.dot = r.arity)
    (hc : (g.productions target).Lalr (st.kernelSet (g.productions target)) i c) :
    st.Calls (g.productions target).basis c (.reduce r.id) := by
  obtain ⟨item, hitem, rfl, hprod⟩ := h.exists_item hst hi
  rw [hp, Option.some.injEq] at hprod
  refine ⟨item, hitem, .reduce ?_ (hprod ▸ rfl) ((h.isLalr.lookaheads st hst item hitem c).mpr hc)⟩
  rw [Productions.remaining_eq_rest, Productions.rest_eq hp, List.drop_eq_nil_iff, hdot]
  simp [production, Rule.arity]

lemma calls_accept (h : g.Builds target t) (hst : st ∈ (g.automatonOf target).states)
    (hi : ⟨0, 1⟩ ∈ (g.productions target).closure (st.kernelSet (g.productions target))) :
    st.Calls (g.productions target).basis SymbolId.eoi .accept := by
  obtain ⟨item, hitem, hdotted, hprod⟩ := h.exists_item hst hi
  rw [h.proper.start, Option.some.injEq] at hprod
  refine ⟨item, hitem, .accept ?_ (hprod ▸ rfl)⟩
  rw [Productions.remaining_eq_rest, hdotted, Productions.rest_eq (i := ⟨0, 1⟩) h.proper.start]
  rfl

/-! ## Cells of the table -/

lemma action?_eq (h : g.Builds target t) (state : StateId) (c : SymbolId) :
    t.action? state c = ((g.automatonOf target).states[state]?).bind fun st =>
      ((Row.ofState g (g.productions target).basis state st).actions[c]?).join := by
  rw [h.table_eq, Automaton.action?_table]
  rfl

lemma expectedIn_eq (h : g.Builds target t) (state : StateId) :
    t.expectedIn state = (((g.automatonOf target).states[state]?).map fun st =>
      (Row.ofState g (g.productions target).basis state st).expected g).getD [] := by
  rw [h.table_eq, ActionTable.expectedIn, Automaton.table]
  simp only [List.getD_eq_getElem?_getD, List.getElem?_map, List.getElem?_mapIdx]
  cases (g.automatonOf target).states[state]? <;> rfl

/-- A state is prepared for the terminals that have an action other than `fail`. -/
lemma mem_expectedIn (h : g.Builds target t) {state : StateId} {s : SymbolId} :
    s ∈ t.expectedIn state ↔
      g.symbols.isTerminal s = true ∧ ∃ a, t.action? state s = some a ∧ a ≠ .fail := by
  rw [h.expectedIn_eq, h.action?_eq]
  cases (g.automatonOf target).states[state]? with
  | none => simp
  | some st =>
    rw [Option.map_some, Option.getD_some, Option.bind_some, Row.mem_expected]
    simp only [Row.Has, Option.join_eq_some_iff]

lemma goto?_eq (h : g.Builds target t) (state : StateId) (s : SymbolId) :
    t.goto? state s = ((g.automatonOf target).states[state]?).bind fun st =>
      ((Row.ofState g (g.productions target).basis state st).gotos[s]?).join := by
  rw [h.table_eq, ActionTable.goto?, ActionTable.cell?, Automaton.table]
  simp only [List.getElem?_map, List.getElem?_mapIdx]
  cases (g.automatonOf target).states[state]? <;> rfl

/-- An action other than `fail` is called for by some item of the state. -/
lemma calls_of_action (h : g.Builds target t)
    (hst : (g.automatonOf target).states[state]? = some st) (ha : t.action? state c = some a) :
    a = .fail ∨ st.Calls (g.productions target).basis c a := by
  rw [h.action?_eq, hst, Option.bind_some, Option.join_eq_some_iff] at ha
  exact Row.called_of_action ha

lemma target_of_goto (h : g.Builds target t) (hst : (g.automatonOf target).states[state]? = some st)
    (hdest : t.goto? state s = some dest) : st.target? (.nonterminal s) = some dest := by
  rw [h.goto?_eq, hst, Option.bind_some, Option.join_eq_some_iff] at hdest
  exact Row.target_of_goto hdest

/-- The goto cell of a non-terminal after a dot is defined. -/
lemma goto_of_rest (h : g.Builds target t) (hst : (g.automatonOf target).states[state]? = some st)
    (hi : i ∈ (g.productions target).closure (st.kernelSet (g.productions target)))
    (hrest : (g.productions target).rest i = .nonterminal s :: β) :
    ∃ dest, t.goto? state s = some dest ∧ st.target? (.nonterminal s) = some dest := by
  have hmem := List.mem_of_getElem? hst
  obtain ⟨dest, hdest⟩ := h.exists_target hmem hi hrest
  refine ⟨dest, ?_, hdest⟩
  rw [h.goto?_eq, hst, Option.bind_some, Option.join_eq_some_iff]
  obtain ⟨item, hitem, rfl, -⟩ := h.exists_item hmem hi
  have hwidth := (h.proper.symbol_lt_of_rest hrest).1
  rw [← Productions.remaining_eq_rest] at hrest
  exact Row.goto_of_target hitem hrest hdest hwidth

/-- Where nothing clashed, what a state calls for is in its cell. -/
lemma action_of_calls (h : g.Builds target t) (hconflicts : t.conflicts = [])
    (hst : (g.automatonOf target).states[state]? = some st)
    (hcalls : st.Calls (g.productions target).basis c a) (hc : c ≠ SymbolId.epsilon)
    (hwidth : c < g.symbols.size) : t.action? state c = some a := by
  rw [h.action?_eq, hst, Option.bind_some, Option.join_eq_some_iff]
  refine Row.action_of_called hcalls hc hwidth ?_
  rw [h.table_eq] at hconflicts
  simp only [Automaton.table, List.flatMap_eq_nil_iff, List.mem_mapIdx] at hconflicts
  obtain ⟨hlt, hget⟩ := List.getElem?_eq_some_iff.mp hst
  exact hconflicts _ ⟨state, hlt, by rw [hget]; rfl⟩

end Builds

/-! ## Levels -/

/-- Where nothing clashed, nothing clashes with inherited levels either. -/
lemma Builds.conflicts_inheritLevels {t' : ActionTable} (h : g.Builds target t)
    (h' : g.inheritLevels.Builds target t') (hconflicts : t.conflicts = []) :
    t'.conflicts = [] := by
  rw [h.table_eq] at hconflicts
  rw [h'.table_eq]
  simp only [Automaton.table, List.flatMap_eq_nil_iff, List.mem_mapIdx] at hconflicts ⊢
  rintro _ ⟨i, hi, rfl⟩
  simp only [productions_inheritLevels] at hi ⊢
  have hnil := hconflicts _ ⟨i, hi, rfl⟩
  rw [Row.ofState_eq hnil]
  exact hnil

end Grammar

end ShiftReduce
