import ShiftReduce.Proofs.Cache.Record
import ShiftReduce.Proofs.Grammar.Sentence
import ShiftReduce.Proofs.Table.Guarded
import ShiftReduce.Proofs.Table.Numbers
/-!
# Built tables are well formed

A table has a row for every state and a column for every symbol. Its entries are in order: what is
shifted or recognised leads to a state other than the start, and there always by the same symbol;
a reduction is by a rule of the grammar; actions stand in the columns of terminals and gotos in
those of non-terminals; and there is one place for accepting. A record of the table is never refused
for the shape of the table. A grammar is refused a table only if something that it uses is
undefined, and no access is out of range while a table is built by index.

Main statement: `Grammar.Valid.table_wellFormed`.
-/

namespace ShiftReduce

/-! ## Moves between item sets -/

namespace Productions

variable {ps : Productions} {target : SymbolId} {I I' K : Set Dotted} {part part' : Part}

/-- What is entered over two parts tells which of them it was. -/
lemma part_eq_of_goto_eq (hne : (ps.goto I part).Nonempty)
    (h : ps.goto I part = ps.goto I' part') : part = part' := by
  obtain ⟨j, i, hi, β, hrest, rfl⟩ := hne
  have hmem : i.advance ∈ ps.goto I part := ⟨i, hi, β, hrest, rfl⟩
  rw [h] at hmem
  obtain ⟨i', -, β', hrest', hadvance⟩ := hmem
  rw [Dotted.advance_injective hadvance, hrest] at hrest'
  exact (List.cons.inj hrest').1

/-- No move leads to the start. -/
lemma goto_ne_start : ps.goto I part ≠ {Dotted.start} := by
  intro h
  have hmem : Dotted.start ∈ ps.goto I part := h ▸ rfl
  obtain ⟨i, -, -, -, hadvance⟩ := hmem
  exact absurd (congrArg Dotted.dot hadvance) (Nat.succ_ne_zero i.dot)

/-- The complete item of `^` is in one kernel only. -/
lemma ReachableKernel.eq_of_mem_accepting (hps : ps.Proper target) (h : ps.ReachableKernel K)
    (hmem : ⟨0, 1⟩ ∈ ps.closure K) :
    K = ps.goto (ps.closure {Dotted.start}) (.nonterminal target) := by
  have hK : ⟨0, 1⟩ ∈ K := (hps.mem_closure hmem).resolve_right fun h => by cases h.1
  cases h with
  | start => cases hK
  | @goto K part hK' hne =>
    obtain ⟨i, hi, β, hrest, hadvance⟩ := hK
    -- it comes from `^ → . target`, which is in the start only
    have hi0 : i = Dotted.start := Dotted.advance_injective hadvance
    subst hi0
    have hmemK := (hps.mem_closure hi).resolve_right fun h => h.2 rfl
    have hKstart : K = {Dotted.start} := by
      cases hK' with
      | start => rfl
      | goto =>
        obtain ⟨i, -, -, -, hadvance⟩ := hmemK
        exact absurd (congrArg Dotted.dot hadvance) (Nat.succ_ne_zero i.dot)
    rw [rest_eq (i := Dotted.start) hps.start] at hrest
    cases hrest
    rw [hKstart]

end Productions

namespace Grammar

variable {g : Grammar} {target : SymbolId} {K : Set Dotted} {i : Dotted} {part : Part}

/-! ## Terminals and non-terminals -/

/-- The parts of a production are those of symbols of the grammar. -/
lemma Valid.known_rhs (hg : g.Valid) (ht : g.target = some target) {p : Nat} {prod : Production}
    (hp : (g.productions target).get? p = some prod) : g.Known prod.rhs :=
  fun part hpart => ⟨(hg.proper_productions ht).symbol_lt hp part hpart,
    hg.part_symbol_of_mem ht hp hpart⟩

/-- What can begin a string of known parts is a terminal. -/
lemma Valid.isTerminal_of_begins (hg : g.Valid) (ht : g.target = some target) {β : List Part}
    {c : SymbolId} (hβ : g.Known β) (h : (g.productions target).Begins β c) :
    g.symbols.isTerminal c = true := by
  obtain ⟨γ, hγ⟩ := h
  have hknown := (hg.derives_of_parts ht hγ hβ).2
  exact isTerminal_of_known fun part hpart => hknown part
    (List.mem_singleton.mp hpart ▸ List.mem_cons_self)

/-- Lookaheads are terminals. -/
lemma Valid.isTerminal_of_lalr (hg : g.Valid) (ht : g.target = some target) {c : SymbolId}
    (hK : (g.productions target).ReachableKernel K) (h : (g.productions target).Lalr K i c) :
    g.symbols.isTerminal c = true := by
  refine Productions.Lalr.least (hg.proper_productions ht)
    (P := fun _ _ c => g.symbols.isTerminal c = true) hg.isTerminal_eoi
    (fun _ _ hrest _ hbegins => ?_) (fun _ h _ _ _ => h) (fun _ _ h _ => h) hK h
  obtain ⟨prod, hp, -, rfl⟩ := Productions.exists_production_of_rest hrest
  exact hg.isTerminal_of_begins ht
    (fun part hpart => hg.known_rhs ht hp part (List.mem_of_mem_drop hpart)) hbegins

end Grammar

/-! ## Entries of a table -/

/-- What is in a cell was put there because something is called for on its symbol. -/
lemma Row.exists_calls {g : Grammar} {b : Basis} {state : StateId} {st : State} {c : SymbolId}
    {a : Action} (h : (Row.ofState g b state st).Has c a) : ∃ a', st.Calls b c a' := by
  refine Row.ofState_induction (P := fun row => ∀ c a, row.Has c a → ∃ a', st.Calls b c a')
    g b state st ?blank ?put ?goto ?fallback c a h
  case blank => exact fun c a hhas => absurd hhas (Row.not_has_blank _ c a)
  case put =>
    intro row c incoming hcalls ih c' a hhas
    rcases Row.has_of_put hhas with hold | ⟨rfl, -⟩
    · exact ih c' a hold
    · exact ⟨incoming, hcalls⟩
  case goto => exact fun row _ _ _ ih => ih
  case fallback =>
    intro row rule hcalls ih c a hhas
    rcases Row.has_of_putFallback hhas with hold | ⟨rfl, -⟩
    · exact ih c a hold
    · exact ⟨.reduce rule, hcalls⟩

namespace ActionTable

/-- To shift the symbol in the state, or to recognise it above the state, leads to `dest`. -/
def Enters (t : ActionTable) (state : StateId) (c : SymbolId) (dest : StateId) : Prop :=
  t.action? state c = some (.shift dest) ∨ t.goto? state c = some dest

/-- All entries of the table of a grammar are where they belong and lead to where they should. -/
structure InOrder (g : Grammar) (t : ActionTable) : Prop where
  width_eq : t.width = g.symbols.size
  rows : t.isWellFormed = true
  states : ∀ a, g.automaton = .ok a → t.stateCount = a.states.length
  dest : ∀ {state c dest}, t.Enters state c dest → 0 < dest ∧ dest < t.stateCount
  rule : ∀ {state c id}, t.action? state c = some (.reduce id) → ∃ r, g.rule? id = some r
  terminal : ∀ {state c a}, t.action? state c = some a → g.symbols.isTerminal c = true
  nonterminal : ∀ {state s dest}, t.goto? state s = some dest → g.symbols.isNonterminal s = true
  accept : ∀ {state c}, t.action? state c = some .accept → c = SymbolId.eoi
  accepting : ∀ {state state' c c'}, t.action? state c = some .accept →
    t.action? state' c' = some .accept → state = state'
  /-- A state is entered by one symbol only. -/
  column : ∀ {state state' c c' dest}, t.Enters state c dest → t.Enters state' c' dest → c = c'
  ascending : ∀ state, (t.expectedIn state).Pairwise (· < ·)
  expected : ∀ {state c}, c ∈ t.expectedIn state ↔
    g.symbols.isTerminal c = true ∧ ∃ a, t.action? state c = some a ∧ a ≠ .fail

/-- A record of the table is not refused for the shape of the table. Where the numbers of states and
symbols are words and the record is not too long for its header, it is read back. -/
structure Reloadable (t : ActionTable) : Prop where
  consistent : ∀ writtenAt, Record.decode (Record.encode ⟨writtenAt, t⟩) ≠ .error .inconsistent
  read : t.width ≤ wordRange → t.stateCount ≤ wordRange → (Record.payload t).length < 2 ^ 64 →
    ∀ writtenAt < 2 ^ 64, Record.decode (Record.encode ⟨writtenAt, t⟩) = .ok ⟨writtenAt, t⟩

end ActionTable

namespace Grammar.Builds

variable {g : Grammar} {target : SymbolId} {t : ActionTable} {state dest : StateId} {st : State}
  {c : SymbolId} {a : Action}

lemma stateCount_eq (h : g.Builds target t) :
    t.stateCount = (g.automatonOf target).states.length := by
  simp [h.table_eq, ActionTable.stateCount, Automaton.table]

/-- There is a row for every state and a column for every symbol. -/
lemma isWellFormed (h : g.Builds target t) : t.isWellFormed = true :=
  h.table_eq ▸ Automaton.isWellFormed_table _ g

/-- An entry stands in the row of a state. -/
lemma exists_state (h : g.Builds target t) (ha : t.action? state c = some a) :
    ∃ st, (g.automatonOf target).states[state]? = some st := by
  rw [h.action?_eq, Option.bind_eq_some_iff] at ha
  exact ⟨ha.choose, ha.choose_spec.1⟩

/-- An action other than `fail` is called for by the state of its row. -/
lemma exists_calls (h : g.Builds target t) (ha : t.action? state c = some a) :
    ∃ st, (g.automatonOf target).states[state]? = some st ∧
      (a = .fail ∨ st.Calls (g.productions target).basis c a) := by
  obtain ⟨st, hst⟩ := h.exists_state ha
  exact ⟨st, hst, h.calls_of_action hst ha⟩

/-- A goto is the transition of the state of its row. -/
lemma exists_target_of_goto (h : g.Builds target t) (hgoto : t.goto? state c = some dest) :
    ∃ st, (g.automatonOf target).states[state]? = some st ∧
      st.target? (.nonterminal c) = some dest := by
  have hrow := hgoto
  rw [h.goto?_eq, Option.bind_eq_some_iff] at hrow
  obtain ⟨st, hst, -⟩ := hrow
  exact ⟨st, hst, h.target_of_goto hst hgoto⟩

/-- An entry that leads somewhere follows a transition over its symbol. -/
lemma exists_target_of_enters (h : g.Builds target t) (henters : t.Enters state c dest) :
    ∃ st part, (g.automatonOf target).states[state]? = some st ∧
      st.target? part = some dest ∧ part.symbol = c := by
  rcases henters with hshift | hgoto
  · obtain ⟨st, hst, hfail | hcalls⟩ := h.exists_calls hshift
    · cases hfail
    · exact ⟨st, _, hst, (h.calls_shift_iff (List.mem_of_getElem? hst)).mp hcalls, rfl⟩
  · obtain ⟨st, hst, htarget⟩ := h.exists_target_of_goto hgoto
    exact ⟨st, _, hst, htarget, rfl⟩

/-- A state that an entry leads to is not the start. -/
lemma dest_of_enters (h : g.Builds target t) (henters : t.Enters state c dest) :
    0 < dest ∧ dest < t.stateCount := by
  obtain ⟨st, part, hst, htarget, -⟩ := h.exists_target_of_enters henters
  obtain ⟨st', hst', hset⟩ := h.exists_rest_of_target (List.mem_of_getElem? hst) htarget
  rw [h.stateCount_eq]
  refine ⟨Nat.pos_of_ne_zero ?_, (List.getElem?_eq_some_iff.mp hst').1⟩
  rintro rfl
  obtain ⟨st₀, hst₀, hstart⟩ := h.isLalr.start
  rw [hst', Option.some.injEq] at hst₀
  rw [hst₀, hstart] at hset
  exact Productions.goto_ne_start hset.symm

/-- All entries that lead to a state stand in one column. -/
lemma column_of_enters (h : g.Builds target t) {state' : StateId} {c' : SymbolId}
    (henters : t.Enters state c dest) (henters' : t.Enters state' c' dest) : c = c' := by
  obtain ⟨st, part, hst, htarget, rfl⟩ := h.exists_target_of_enters henters
  obtain ⟨st', part', hst', htarget', rfl⟩ := h.exists_target_of_enters henters'
  obtain ⟨std, hstd, hne, hset⟩ :=
    (h.isLalr.goto st (List.mem_of_getElem? hst) part dest).mp htarget
  obtain ⟨std', hstd', -, hset'⟩ :=
    (h.isLalr.goto st' (List.mem_of_getElem? hst') part' dest).mp htarget'
  rw [hstd, Option.some.injEq] at hstd'
  rw [Productions.part_eq_of_goto_eq hne (hset.symm.trans (hstd' ▸ hset'))]

/-- Something is called for on terminals only. -/
lemma isTerminal_of_calls (h : g.Builds target t) (hst : st ∈ (g.automatonOf target).states)
    (hcalls : st.Calls (g.productions target).basis c a) : g.symbols.isTerminal c = true := by
  obtain ⟨item, hitem, hcalls⟩ := hcalls
  cases hcalls with
  | shift hrest _ =>
    rw [Productions.remaining_eq_rest] at hrest
    obtain ⟨prod, hp, hpart, -⟩ := Productions.exists_production_of_rest hrest
    exact isTerminal_of_known fun part hmem => h.valid.known_rhs h.accepts hp part
      (List.mem_singleton.mp hmem ▸ List.mem_of_getElem? hpart)
  | accept => exact h.valid.isTerminal_eoi
  | reduce _ _ ht =>
    exact h.valid.isTerminal_of_lalr h.accepts (h.isLalr.reachable st hst)
      ((h.isLalr.lookaheads st hst item hitem c).mp ht)
  | fallback => exact h.valid.isTerminal_epsilon

/-- Accepting is called for by the state that is entered over the accepted symbol. -/
lemma accepting_unique (h : g.Builds target t) {state' : StateId} {c' : SymbolId}
    (ha : t.action? state c = some .accept) (ha' : t.action? state' c' = some .accept) :
    state = state' := by
  have hkernel : ∀ {state c}, t.action? state c = some .accept →
      ∃ st, (g.automatonOf target).states[state]? = some st ∧
        st.kernelSet (g.productions target) = (g.productions target).goto
          ((g.productions target).closure {Dotted.start}) (.nonterminal target) := by
    intro state c ha
    obtain ⟨st, hst, hfail | hcalls⟩ := h.exists_calls ha
    · cases hfail
    · have hmem := List.mem_of_getElem? hst
      exact ⟨st, hst, (h.isLalr.reachable st hmem).eq_of_mem_accepting h.proper
        (h.of_calls_accept hmem hcalls).2⟩
  obtain ⟨st, hst, hset⟩ := hkernel ha
  obtain ⟨st', hst', hset'⟩ := hkernel ha'
  exact h.isLalr.distinct state state' st st' hst hst' (hset.trans hset'.symm)

lemma inOrder (h : g.Builds target t) : t.InOrder g where
  width_eq := by
    rw [h.table_eq]
    rfl
  rows := h.isWellFormed
  states a ha := by
    obtain ⟨target', htarget, -, rfl⟩ := automaton_eq_ok ha
    rw [h.accepts, Option.some.injEq] at htarget
    rw [h.stateCount_eq, htarget]
  dest := h.dest_of_enters
  rule {state c id} ha := by
    obtain ⟨st, hst, hfail | hcalls⟩ := h.exists_calls ha
    · cases hfail
    · exact h.valid.rule_of_calls h.accepts hcalls
  terminal {state c a} ha := by
    obtain ⟨st, hst⟩ := h.exists_state ha
    rw [h.action?_eq, hst, Option.bind_some, Option.join_eq_some_iff] at ha
    obtain ⟨a', hcalls⟩ := Row.exists_calls ha
    exact h.isTerminal_of_calls (List.mem_of_getElem? hst) hcalls
  nonterminal {state s dest} hgoto := by
    obtain ⟨st, hst, htarget⟩ := h.exists_target_of_goto hgoto
    exact isNonterminal_of_part_eq (h.part_symbol_of_target (List.mem_of_getElem? hst) htarget)
  accept {state c} ha := by
    obtain ⟨st, hst, hfail | hcalls⟩ := h.exists_calls ha
    · cases hfail
    · exact (h.of_calls_accept (List.mem_of_getElem? hst) hcalls).1
  accepting := h.accepting_unique
  column := h.column_of_enters
  ascending state := by
    rw [h.expectedIn_eq]
    cases (g.automatonOf target).states[state]? with
    | none => exact List.Pairwise.nil
    | some st => exact List.pairwise_lt_range.filter _
  expected := h.mem_expectedIn

/-! ## Numbers in a table -/

/-- The numbers of rules are words if the keys of items are. -/
lemma rules_length_le (h : g.Builds target t) : g.rules.length ≤ wordRange := by
  -- every rule has a production of its own, and the key of its first item is a word
  have hsub : List.range g.rules.length ⊆
      (g.productions target).list.toList.filterMap Production.rule := by
    intro id hid
    obtain ⟨r, hr, rfl⟩ := List.mem_map.mp (h.valid.ids ▸ hid)
    obtain ⟨p, hp⟩ := exists_productions_get?_of_rule target hr
    exact List.mem_filterMap.mpr ⟨_, Array.mem_toList_iff.mpr (Array.mem_of_getElem? hp), rfl⟩
  have hle := (List.nodup_range.subperm hsub).length_le.trans (List.length_filterMap_le _ _)
  rw [List.length_range, Array.length_toList] at hle
  by_contra hlt
  rw [Nat.not_le] at hlt
  have hsize : wordRange < (g.productions target).list.size := hlt.trans_le hle
  have hfit := h.keysFit wordRange _ (Array.getElem?_eq_getElem hsize)
  have hstride : wordRange * 1 ≤ wordRange * (g.productions target).stride :=
    Nat.mul_le_mul_left _ (Nat.succ_pos _)
  omega

lemma fits (h : g.Builds target t) (hwidth : t.width ≤ wordRange)
    (hstates : t.stateCount ≤ wordRange) : t.Fits := by
  have hrules : ∀ r ∈ g.rules, r.id < wordRange := fun r hr =>
    (List.mem_range.mp (h.valid.ids ▸ List.mem_map_of_mem hr)).trans_le h.rules_length_le
  rw [h.inOrder.width_eq] at hwidth
  rw [h.stateCount_eq] at hstates
  exact h.table_eq ▸ fits_automaton_table hrules hwidth hstates

lemma reloadable (h : g.Builds target t) : t.Reloadable where
  consistent _ := Record.decode_encode_ne_inconsistent h.isWellFormed
  read hwidth hstates hlength _ hwritten :=
    Record.decode_encode_of_fits h.isWellFormed (h.fits hwidth hstates) hwritten hlength

end Grammar.Builds

namespace Grammar

variable {g : Grammar}

/-- A table is built if and only if everything in use is defined, and the errors are the same. -/
lemma table_map_eq_validate (g : Grammar) : (g.table.map fun _ => ()) = g.validate := by
  rw [table, automaton]
  cases hvalidate : g.validate with
  | error e => rfl
  | ok u =>
    cases htarget : g.target with
    | none =>
      rw [validate, htarget] at hvalidate
      cases hvalidate
    | some target => rfl

/-- A valid grammar whose item keys fit in a word has a table unless something in use is undefined,
which is then the error. Its entries are in order, and a record of it can be read. When the table is
built by index no access is out of range and every iteration ends; that a number of a symbol is a
word keeps a table of symbols from having more of them. -/
theorem Valid.table_wellFormed (hg : g.Valid) (hk : g.KeysFit) :
    (g.table.map fun _ => ()) = g.validate ∧
      (g.symbols.size ≤ wordRange →
        ∃ n, ∀ fuel, n ≤ fuel → Guarded.grammarTable fuel g = some g.table) ∧
      ∀ t, g.table = .ok t → t.InOrder g ∧ t.Reloadable := by
  refine ⟨table_map_eq_validate g, Guarded.grammarTable_eq hg hk, fun t ht => ?_⟩
  obtain ⟨target, hbuilds⟩ := exists_builds hg hk ht
  exact ⟨hbuilds.inOrder, hbuilds.reloadable⟩

theorem table_wellFormed_nested : ∃ t, nested.table = .ok t ∧
    (∃ n, ∀ fuel, n ≤ fuel → Guarded.grammarTable fuel nested = some (.ok t)) ∧
      t.InOrder nested ∧ t.Reloadable := by
  obtain ⟨-, hguarded, hbuilt⟩ := valid_nested.table_wellFormed keysFit_nested
  have ht : nested.table = .ok ((nested.automatonOf 2).table nested) := rfl
  have hguarded := hguarded (by decide)
  rw [ht] at hguarded
  exact ⟨_, ht, hguarded, hbuilt _ ht⟩

end Grammar

end ShiftReduce
