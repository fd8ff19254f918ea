import ShiftReduce.Proofs.Grammar.Repetition
import ShiftReduce.Proofs.Table.Operators
/-!
# Tables of repetitions

Where non-terminals stand only in front of clauses, productions begin in the start state and in no
other one, since a closure opens something only where a non-terminal is after the dot. So in every
state the labels of the whole stack are the symbols before the dot, in whatever item.

For a repetition this tells what its table says. Above the symbols of a rule nothing but the rule
can be reduced. A shift may meet with a reduction, of `s → ε` in front of the first `v`; it wins,
as no levels are in force.

If the row is so long that the key of `s → ε` wraps around to 0, the construction takes that rule
for `^ → start`. Then nothing can be reduced in the start state.

Main statements: `Grammar.Builds.labels_of_front`, `Grammar.Repeats.action?_shift`,
`Grammar.Repeats.action?_reduce` and `Grammar.Repeats.action?_start`.
-/

namespace ShiftReduce

namespace Grammar

/-- Non-terminals stand only in front of what a parser finds on its stack for a rule. -/
def NonterminalsInFront (g : Grammar) : Prop :=
  ∀ r ∈ g.rules, ∀ t ∈ r.symbols.tail, g.symbols.isNonterminal t = false

variable {g : Grammar} {target start s c : SymbolId} {t : ActionTable} {labels v : List SymbolId}
  {frames : List Frame} {st : State} {i : Dotted} {prod : Production} {a : Action}
  {dest : StateId} {id : RuleId} {r : Rule}

namespace Builds

variable (h : g.Builds target t) (hfront : g.NonterminalsInFront)

include h hfront

/-- So a non-terminal after a dot has nothing before it. -/
lemma dot_eq_zero_of_rest {β : List Part}
    (hrest : (g.productions target).rest i = .nonterminal s :: β) : i.dot = 0 := by
  obtain ⟨prod, hp, hpart, -⟩ := Productions.exists_production_of_rest hrest
  by_contra hdot
  obtain ⟨d, hd⟩ := Nat.exists_eq_succ_of_ne_zero hdot
  rw [hd] at hpart
  by_cases h0 : i.production = 0
  · rw [h0, h.proper.start, Option.some.injEq] at hp
    subst hp
    cases hpart
  · obtain ⟨r, hr, rfl⟩ := exists_rule_of_productions_get? hp h0
    rw [production, List.getElem?_map, Option.map_eq_some_iff] at hpart
    obtain ⟨u, hu, hpart⟩ := hpart
    have hmem : u ∈ r.symbols.tail := by
      rw [← List.drop_one]
      exact List.mem_of_getElem? (i := d) (by rw [List.getElem?_drop, Nat.add_comm]; exact hu)
    have hterminal := hfront r hr u hmem
    rw [part, hterminal] at hpart
    cases hpart

/-- Where a production begins the stack is empty. -/
lemma frames_eq_nil_of_front (hpath : (g.automatonOf target).Path g labels frames)
    (hst : (g.automatonOf target).states[Configuration.topState frames]? = some st)
    (hi : i ∈ (g.productions target).closure (st.kernelSet (g.productions target)))
    (hdot : i.dot = 0) : frames = [] := by
  induction hi with
  | kernel hkernel => exact h.frames_eq_nil hpath hst hkernel hdot
  | opening _ hrest _ ih => exact ih (h.dot_eq_zero_of_rest hfront hrest)

/-- The labels of a stack are the symbols before the dot in any item of the state on top. -/
lemma labels_of_front (hpath : (g.automatonOf target).Path g labels frames)
    (hst : (g.automatonOf target).states[Configuration.topState frames]? = some st)
    (hi : i ∈ (g.productions target).closure (st.kernelSet (g.productions target)))
    (hr : (g.productions target).get? i.production = some (g.production r)) :
    labels.length = i.dot ∧ labels.reverse = r.symbols.take i.dot := by
  obtain ⟨hlabels, hle, st₀, hst₀, hbegins⟩ := h.viable hpath hst hi hr
  have hnil := h.frames_eq_nil_of_front hfront (hpath.drop i.dot) hst₀ hbegins rfl
  have hlength : labels.length = i.dot := by
    rw [List.drop_eq_nil_iff, ← hpath.length_eq] at hnil
    exact Nat.le_antisymm hnil hle
  refine ⟨hlength, ?_⟩
  rw [List.take_of_length_le (Nat.le_of_eq hlength), production, ← List.map_take,
    ← List.map_reverse] at hlabels
  rw [List.map_injective_iff.mpr g.part_injective hlabels, List.reverse_reverse]

end Builds

namespace Repeats

/-! ## What is called for above some labels -/

lemma nonterminalsInFront (h : g.Repeats start s v) : g.NonterminalsInFront := by
  have hv : ∀ t ∈ v, g.symbols.isNonterminal t = false := fun t ht =>
    SymbolTable.isNonterminal_eq_false_of_isTerminal (h.terminal t ht).1
  intro r hr t ht
  rcases h.symbols_cases hr with hsymbols | hsymbols | hsymbols | hsymbols <;> rw [hsymbols] at ht
  · cases ht
  · exact hv t (List.mem_of_mem_tail ht)
  · exact hv t ht
  · cases ht

/-- Without levels a shift wins over a reduction. -/
lemma arbitrate_eq (h : g.Repeats start s v) (hr : r ∈ g.rules) :
    g.arbitrate c dest r.id = .shift dest := by
  obtain ⟨-, -, hlevel, harbitration⟩ := h.plain hr
  have hnone : g.level c = 0 := by
    rw [level, level?, h.levels]
    rfl
  simp only [arbitrate, h.valid.rule?_id hr, Option.map_some, Option.getD_some, hlevel, hnone,
    harbitration]
  rfl

section Labels

variable (hb : g.Builds start t) (h : g.Repeats start s v)
  (hpath : (g.automatonOf start).Path g labels frames)
  (hst : (g.automatonOf start).states[Configuration.topState frames]? = some st)

include hb h hpath hst

/-- A rule is reduced only if its symbols are the whole stack. -/
lemma reduce_cases (hcalls : st.Calls (g.productions start).basis c (.reduce id)) :
    ∃ r ∈ g.rules, r.id = id ∧ r.symbols = labels.reverse := by
  obtain ⟨i, hi, r, hr, hp, -, hdot⟩ := hb.of_calls_reduce (List.mem_of_getElem? hst) hcalls
  obtain ⟨-, hlabels⟩ := hb.labels_of_front h.nonterminalsInFront hpath hst hi hp
  refine ⟨r, List.mem_of_getElem? hr, h.valid.rule_id hr, ?_⟩
  rw [hlabels, hdot, Rule.arity, List.take_length]

/-- A symbol is shifted only if the symbols of some rule go on with it behind the whole stack. -/
lemma shift_cases (htarget : st.target? (.terminal c) = some dest) :
    ∃ r ∈ g.rules, ∃ rest, r.symbols = labels.reverse ++ c :: rest := by
  obtain ⟨-, -, ⟨_, i, hi, β, hrest, -⟩, -⟩ :=
    (hb.isLalr.goto st (List.mem_of_getElem? hst) _ dest).mp htarget
  obtain ⟨prod, hp, hpart, -⟩ := Productions.exists_production_of_rest hrest
  have hne : i.production ≠ 0 := by
    intro h0
    rw [h0, hb.proper.start, Option.some.injEq] at hp
    subst hp
    cases List.mem_singleton.mp (List.mem_of_getElem? hpart)
  obtain ⟨r, hr, rfl⟩ := exists_rule_of_productions_get? hp hne
  obtain ⟨-, hlabels⟩ := hb.labels_of_front h.nonterminalsInFront hpath hst hi hp
  rw [production, List.getElem?_map, Option.map_eq_some_iff] at hpart
  obtain ⟨u, hu, hpart⟩ := hpart
  refine ⟨r, hr, r.symbols.drop (i.dot + 1), ?_⟩
  rw [hlabels, ← eq_of_part_eq_terminal hpart]
  obtain ⟨hlt, rfl⟩ := List.getElem?_eq_some_iff.mp hu
  rw [← List.drop_eq_getElem_cons hlt, List.take_append_drop]

/-- All that can be called for above some labels. -/
lemma calls_cases (hcalls : st.Calls (g.productions start).basis c a) :
    (∃ dest, a = .shift dest ∧ st.target? (.terminal c) = some dest ∧
      ∃ r ∈ g.rules, ∃ rest, r.symbols = labels.reverse ++ c :: rest) ∨
    (∃ r ∈ g.rules, a = .reduce r.id ∧ r.symbols = labels.reverse) ∨
    a = .accept ∧ c = SymbolId.eoi ∧ labels = [start] := by
  have hmem := List.mem_of_getElem? hst
  cases a with
  | shift dest =>
    have htarget := (hb.calls_shift_iff hmem).mp hcalls
    exact .inl ⟨dest, rfl, htarget, shift_cases hb h hpath hst htarget⟩
  | reduce id =>
    obtain ⟨r, hr, rfl, hsymbols⟩ := reduce_cases hb h hpath hst hcalls
    exact .inr (.inl ⟨r, hr, rfl, hsymbols⟩)
  | accept =>
    obtain ⟨hc, hi⟩ := hb.of_calls_accept hmem hcalls
    exact .inr (.inr ⟨rfl, hc, hb.viable_target hpath hst hi⟩)
  | fail =>
    obtain ⟨item, -, hitem⟩ := hcalls
    exact absurd rfl hitem.ne_fail

/-! ## Cells -/

/-- Where a terminal of the row may be shifted it is. -/
lemma action?_shift (hc : c ∈ v) (htarget : st.target? (.terminal c) = some dest) :
    t.action? (Configuration.topState frames) c = some (.shift dest) := by
  obtain ⟨hne, hlt⟩ := h.column (.inr hc)
  have hshift := (hb.calls_shift_iff (List.mem_of_getElem? hst)).mpr htarget
  have honly : ∀ a, st.Calls (g.productions start).basis c a → a = .shift dest ∨
      ∃ r ∈ g.rules, a = .reduce r.id ∧ r.symbols = labels.reverse := by
    intro a ha
    rcases calls_cases hb h hpath hst ha with ⟨dest', rfl, htarget', -⟩ | hreduce | ⟨-, hc', -⟩
    · rw [Option.some.inj (htarget'.symm.trans htarget)]
      exact .inl rfl
    · exact .inr hreduce
    · exact absurd hc' (h.terminal c hc).2.1
  by_cases hreduce : ∃ id, st.Calls (g.productions start).basis c (.reduce id)
  · obtain ⟨id, hreduce⟩ := hreduce
    rcases honly _ hreduce with heq | ⟨r, hr, heq, hsymbols⟩
    · cases heq
    cases heq
    rw [← h.arbitrate_eq hr]
    refine hb.action?_of_both hst hne hlt hshift hreduce fun a ha => ?_
    rcases honly a ha with rfl | ⟨r', hr', rfl, hsymbols'⟩
    · exact .inl rfl
    · rw [h.eq_of_symbols_eq hr' hr (hsymbols'.trans hsymbols.symm)]
      exact .inr rfl
  · refine hb.action?_of_only hst hne hlt hshift fun a ha => ?_
    rcases honly a ha with rfl | ⟨r, -, rfl, -⟩
    · rfl
    · exact absurd ⟨_, ha⟩ hreduce

/-- Above the symbols of a rule the rule is reduced where no rule goes on with the symbol ahead. -/
lemma action?_reduce (hr : r ∈ g.rules) (hsymbols : r.symbols = labels.reverse)
    (hc : c = SymbolId.eoi ∨ c ∈ v)
    (hend : ∀ r' ∈ g.rules, ∀ rest, r'.symbols ≠ r.symbols ++ c :: rest)
    (hcalls : st.Calls (g.productions start).basis c (.reduce r.id)) :
    t.action? (Configuration.topState frames) c = some (.reduce r.id) := by
  obtain ⟨hne, hlt⟩ := h.column hc
  refine hb.action?_of_only hst hne hlt hcalls fun a ha => ?_
  rcases calls_cases hb h hpath hst ha with ⟨dest, rfl, -, r', hr', rest, hsymbols'⟩ |
    ⟨r', hr', rfl, hsymbols'⟩ | ⟨rfl, -, rfl⟩
  · exact absurd hsymbols' (hsymbols ▸ hend r' hr' rest)
  · rw [h.eq_of_symbols_eq hr' hr (hsymbols'.trans hsymbols.symm)]
  · -- no rule has the start symbol
    exact absurd (hsymbols ▸ List.mem_cons_self) (h.start_notMem hr)

/-- Above the start symbol the parse ends. -/
lemma action?_accept (hlabels : labels = [start])
    (hcalls : st.Calls (g.productions start).basis SymbolId.eoi .accept) :
    t.action? (Configuration.topState frames) SymbolId.eoi = some .accept := by
  obtain ⟨hne, hlt⟩ := h.column (.inl rfl)
  refine hb.action?_of_only hst hne hlt hcalls fun a ha => ?_
  subst hlabels
  rcases calls_cases hb h hpath hst ha with ⟨dest, -, -, r, hr, rest, hsymbols⟩ |
    ⟨r, hr, -, hsymbols⟩ | ⟨rfl, -⟩
  · exact absurd (hsymbols ▸ List.mem_cons_self) (h.start_notMem hr)
  · exact absurd (hsymbols ▸ List.mem_cons_self) (h.start_notMem hr)
  · rfl

end Labels

/-! ## Rows that are too long -/

/-- If the key of `s → ε` wraps around to 0, then in the start state nothing is reduced and nothing
is accepted. -/
lemma action?_start (h : g.Repeats start s v) (hwrap : 4 * (v.length + 2) = wordRange)
    (ht : g.table = .ok t) (ha : t.action? 0 c = some a) :
    a = .fail ∨ ∃ dest, a = .shift dest := by
  obtain ⟨target, htarget, rfl⟩ := table_eq_ok ht
  obtain rfl : target = start := Option.some.inj (htarget.symm.trans h.accepts)
  rw [Automaton.action?_table, Option.bind_eq_some_iff] at ha
  obtain ⟨st, hst, hrow⟩ := ha
  rcases Row.called_of_action (Option.join_eq_some_iff.mp hrow) with hfail | hcalls
  · exact .inl hfail
  obtain ⟨item, hitem, hcalled⟩ := hcalls
  obtain ⟨p, hkey⟩ := Basis.exists_key_of_start hst hitem
  have hsome : (g.productions target).basis.remaining item.key ≠ [] :=
    hkey ▸ h.remaining_ne_nil hwrap p
  cases hcalled with
  | shift _ _ => exact .inr ⟨_, rfl⟩
  | accept hnil _ | reduce hnil _ _ | fallback hnil _ _ => exact absurd hnil hsome

end Repeats

end Grammar

end ShiftReduce
