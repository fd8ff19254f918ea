import ShiftReduce.Proofs.Grammar.Operators
import ShiftReduce.Proofs.Parse.Path
import ShiftReduce.Proofs.Table.Offers
/-!
# Tables of operators

What the table of a grammar of operators says in a state depends on the last labels of the stack.
Where an operand is to come, a number is shifted. After a number the rule of the numbers is reduced.
After the first operand an operator is shifted, and after the second one the operator on the stack
is set against the one ahead.

Main statements: `Operators.calls_cases`, `Operators.action?_operator` and
`Operators.action?_after_operand`.
-/

namespace ShiftReduce

namespace Grammar.Builds

variable {g : Grammar} {target c : SymbolId} {t : ActionTable} {state dest : StateId} {st : State}
  {a : Action} {rule : RuleId}

/-- A cell holds the one action that is called for. -/
lemma action?_of_only (h : g.Builds target t)
    (hst : (g.automatonOf target).states[state]? = some st) (hc : c ≠ SymbolId.epsilon)
    (hwidth : c < g.symbols.size) (hcalls : st.Calls (g.productions target).basis c a)
    (honly : ∀ a', st.Calls (g.productions target).basis c a' → a' = a) :
    t.action? state c = some a := by
  rw [h.action?_eq_foldl hst hc hwidth]
  exact foldl_offer_of_one (fun x hx => honly x ((State.mem_offers hc).mp hx))
    (List.ne_nil_of_mem ((State.mem_offers hc).mpr hcalls))

/-- A cell for which a shift and a reduction are called for holds what arbitration makes of them. -/
lemma action?_of_both (h : g.Builds target t)
    (hst : (g.automatonOf target).states[state]? = some st) (hc : c ≠ SymbolId.epsilon)
    (hwidth : c < g.symbols.size)
    (hshift : st.Calls (g.productions target).basis c (.shift dest))
    (hreduce : st.Calls (g.productions target).basis c (.reduce rule))
    (honly : ∀ a, st.Calls (g.productions target).basis c a → a = .shift dest ∨ a = .reduce rule) :
    t.action? state c = some (g.arbitrate c dest rule) := by
  rw [h.action?_eq_foldl hst hc hwidth]
  exact foldl_offer_of_two (fun x hx => honly x ((State.mem_offers hc).mp hx))
    ((State.mem_offers hc).mpr hshift) ((State.mem_offers hc).mpr hreduce)

end Grammar.Builds

namespace Operators

variable {o : Operators} {g : Grammar} {t : ActionTable} {labels rest : List SymbolId}
  {frames : List Frame} {st : State} {c op op' : SymbolId} {dest : StateId} {a : Action} {r : Rule}

/-! ## Parts -/

lemma Rules.part_expression (hg : o.Rules g) : g.part o.expression = .nonterminal o.expression :=
  Grammar.part_eq_nonterminal hg.isNonterminal_expression

lemma Rules.part_terminal (hg : o.Rules g) {s : SymbolId} (hs : s ∈ o.number :: o.symbols) :
    g.part s = .terminal s :=
  Grammar.part_eq_terminal_of_isTerminal (hg.terminal s hs).1

lemma Rules.rhs_number (hg : o.Rules g) (hr : r ∈ g.rules) (hclause : r.clause = [o.number]) :
    (g.production r).rhs = [.terminal o.number] := by
  rw [Grammar.production, hg.symbols_eq hr, hclause, List.map_singleton,
    hg.part_terminal List.mem_cons_self]

lemma Rules.rhs_operator (hg : o.Rules g) (hr : r ∈ g.rules) (hop : op ∈ o.symbols)
    (hclause : r.clause = [o.expression, op, o.expression]) :
    (g.production r).rhs =
      [.nonterminal o.expression, .terminal op, .nonterminal o.expression] := by
  rw [Grammar.production, hg.symbols_eq hr, hclause]
  simp [hg.part_expression, hg.part_terminal (List.mem_cons_of_mem _ hop)]

lemma Rules.level_eq (hg : o.Rules g) (hop : op ∈ o.symbols) : g.level op = o.level op := by
  rw [Grammar.level, hg.level op hop]
  rfl

/-- The end of input, numbers and operators have columns of their own. -/
lemma Rules.column (hg : o.Rules g) (hc : c = SymbolId.eoi ∨ c ∈ o.number :: o.symbols) :
    c ≠ SymbolId.epsilon ∧ c < g.symbols.size := by
  rcases hc with rfl | hc
  · exact ⟨by decide, Nat.lt_of_lt_of_le (by decide) hg.valid.two_le_size⟩
  · obtain ⟨hterminal, -, hne⟩ := hg.terminal c hc
    exact ⟨hne, SymbolTable.lt_size_of_isTerminal hterminal⟩

/-! ## Arbitration -/

section Arbitration

variable (hg : o.Rules g) (hr : r ∈ g.rules) (hop : op ∈ o.symbols) (hop' : op' ∈ o.symbols)
  (hclause : r.clause = [o.expression, op, o.expression]) (hlevel : r.level = o.level op)

include hg hr hop' hclause hlevel

/-- If the first operator takes the operand, the rule of the first operator is reduced. -/
lemma arbitrate_of_first (h : o.First op op') : g.arbitrate op' dest r.id = .reduce r.id := by
  simp only [Grammar.arbitrate, hg.valid.rule?_id hr, Option.map_some, Option.getD_some, hlevel,
    hg.level_eq hop', hg.arbitration r hr op hclause]
  rcases h with hlt | ⟨heq, hleft⟩
  · rw [if_neg (Nat.lt_asymm hlt), if_pos hlt]
  · simp [heq, hleft, Associativity.arbitration]

/-- If the second operator takes the operand, it is shifted. -/
lemma arbitrate_of_second (h : o.Second op op') : g.arbitrate op' dest r.id = .shift dest := by
  simp only [Grammar.arbitrate, hg.valid.rule?_id hr, Option.map_some, Option.getD_some, hlevel,
    hg.level_eq hop', hg.arbitration r hr op hclause]
  rcases h with hlt | ⟨heq, hright⟩
  · rw [if_pos hlt]
  · simp [heq, hright, Associativity.arbitration]

end Arbitration

/-! ## What is called for above some labels -/

section Labels

variable (hb : g.Builds o.expression t) (hg : o.Rules g)
  (hpath : (g.automatonOf o.expression).Path g labels frames)
  (hst : (g.automatonOf o.expression).states[Configuration.topState frames]? = some st)

include hb hg hpath hst

/-- A rule is reduced only if its clause is on the stack. -/
lemma reduce_cases {id : RuleId}
    (hcalls : st.Calls (g.productions o.expression).basis c (.reduce id)) :
    ∃ r ∈ g.rules, r.id = id ∧ ((r.clause = [o.number] ∧ ∃ rest, labels = o.number :: rest) ∨
      ∃ op ∈ o.symbols, r.clause = [o.expression, op, o.expression] ∧
        ∃ rest, labels = o.expression :: op :: rest) := by
  obtain ⟨i, hi, r, hr, hp, hne, hdot⟩ := hb.of_calls_reduce (List.mem_of_getElem? hst) hcalls
  obtain ⟨hlabels, -, -⟩ := hb.viable_rule hpath hst hi hp hne hdot
  have hmem := List.mem_of_getElem? hr
  refine ⟨r, hmem, hg.valid.rule_id hr, ?_⟩
  rw [Rule.arity, hg.symbols_eq hmem] at hlabels
  rcases hg.clause_cases hmem with hclause | ⟨op, hop, hclause⟩
  · rw [hclause] at hlabels
    exact .inl ⟨hclause, labels.drop 1, by rw [← List.take_append_drop 1 labels]; simp_all⟩
  · rw [hclause] at hlabels
    refine .inr ⟨op, hop, hclause, o.expression :: labels.drop 3, ?_⟩
    rw [← List.take_append_drop 3 labels]
    simp_all

/-- An operator is shifted only above an operand, and nothing else is but numbers. -/
lemma shift_cases (htarget : st.target? (.terminal c) = some dest) :
    c = o.number ∨ c ∈ o.symbols ∧ ∃ rest, labels = o.expression :: rest := by
  have hmem := List.mem_of_getElem? hst
  obtain ⟨-, -, ⟨_, i, hi, β, hrest, -⟩, -⟩ := (hb.isLalr.goto st hmem _ dest).mp htarget
  obtain ⟨prod, hp, hpart, -⟩ := Productions.exists_production_of_rest hrest
  have hne : i.production ≠ 0 := by
    intro h0
    rw [h0, hb.proper.start, Option.some.injEq] at hp
    subst hp
    cases List.mem_singleton.mp (List.mem_of_getElem? hpart)
  obtain ⟨r, hr, rfl⟩ := Grammar.exists_rule_of_productions_get? hp hne
  obtain ⟨hlabels, hlength, -⟩ := hb.viable hpath hst hi hp
  rcases hg.clause_cases hr with hclause | ⟨op, hop, hclause⟩
  · rw [hg.rhs_number hr hclause] at hpart
    cases List.mem_singleton.mp (List.mem_of_getElem? hpart)
    exact .inl rfl
  · -- of the parts of the clause only the second is a terminal
    rw [hg.rhs_operator hr hop hclause] at hpart hlabels
    have hdot : i.dot = 1 ∧ op = c := by
      rcases hd : i.dot with _ | _ | _ | d
      all_goals simp_all
    obtain ⟨hdot, rfl⟩ := hdot
    rw [hdot] at hlabels hlength
    cases labels with
    | nil => simp at hlength
    | cons label labels =>
      rw [List.take_succ_cons, List.take_zero, List.map_singleton, List.take_succ_cons,
        List.take_zero, List.reverse_singleton, List.singleton_inj] at hlabels
      refine .inr ⟨hop, labels, ?_⟩
      rw [← g.part_symbol label, hlabels]
      rfl

omit hg in
lemma accept_cases (hcalls : st.Calls (g.productions o.expression).basis c .accept) :
    c = SymbolId.eoi ∧ labels = [o.expression] := by
  obtain ⟨hc, hi⟩ := hb.of_calls_accept (List.mem_of_getElem? hst) hcalls
  exact ⟨hc, hb.viable_target hpath hst hi⟩

/-- All that can be called for above some labels. -/
lemma calls_cases (hcalls : st.Calls (g.productions o.expression).basis c a) :
    (∃ dest, a = .shift dest ∧ st.target? (.terminal c) = some dest ∧
      (c = o.number ∨ c ∈ o.symbols ∧ ∃ rest, labels = o.expression :: rest)) ∨
    (∃ r ∈ g.rules, a = .reduce r.id ∧
      ((r.clause = [o.number] ∧ ∃ rest, labels = o.number :: rest) ∨
        ∃ op ∈ o.symbols, r.clause = [o.expression, op, o.expression] ∧
          ∃ rest, labels = o.expression :: op :: rest)) ∨
    a = .accept ∧ c = SymbolId.eoi ∧ labels = [o.expression] := by
  cases a with
  | shift dest =>
    have htarget := (hb.calls_shift_iff (List.mem_of_getElem? hst)).mp hcalls
    exact .inl ⟨dest, rfl, htarget, shift_cases hb hg hpath hst htarget⟩
  | reduce id =>
    obtain ⟨r, hr, rfl, hlabels⟩ := reduce_cases hb hg hpath hst hcalls
    exact .inr (.inl ⟨r, hr, rfl, hlabels⟩)
  | accept => exact .inr (.inr ⟨rfl, accept_cases hb hpath hst hcalls⟩)
  | fail =>
    obtain ⟨item, -, hitem⟩ := hcalls
    exact absurd rfl hitem.ne_fail

/-! ## Cells -/

/-- Where an operand is to come a number is shifted. -/
lemma action?_number (hlabels : ∀ s ∈ labels.head?, s ∈ o.symbols)
    (htarget : st.target? (.terminal o.number) = some dest) :
    t.action? (Configuration.topState frames) o.number = some (.shift dest) := by
  obtain ⟨hne, hlt⟩ := hg.column (.inr (List.mem_cons_self (a := o.number)))
  have hmem := List.mem_of_getElem? hst
  refine hb.action?_of_only hst hne hlt
    ((hb.calls_shift_iff hmem).mpr htarget) fun a ha => ?_
  rcases calls_cases hb hg hpath hst ha with ⟨dest', rfl, htarget', -⟩ |
    ⟨r, -, -, ⟨-, rest, rfl⟩ | ⟨op, -, -, rest, rfl⟩⟩ | ⟨-, heoi, -⟩
  · rw [Option.some.inj (htarget'.symm.trans htarget)]
  · exact absurd (hlabels _ rfl) (List.nodup_cons.mp o.nodup).1
  · exact absurd rfl (hg.ne_expression (List.mem_cons_of_mem _ (hlabels _ rfl)))
  · exact absurd heoi (hg.terminal _ List.mem_cons_self).2.1

/-- After a number its rule is reduced. -/
lemma action?_after_number (hlabels : labels = o.number :: rest)
    (hc : c = SymbolId.eoi ∨ c ∈ o.symbols) (hr : r ∈ g.rules) (hclause : r.clause = [o.number])
    (hcalls : st.Calls (g.productions o.expression).basis c (.reduce r.id)) :
    t.action? (Configuration.topState frames) c = some (.reduce r.id) := by
  have hnumber := hg.ne_expression List.mem_cons_self
  obtain ⟨hne, hlt⟩ := hg.column (hc.imp_right (List.mem_cons_of_mem _))
  refine hb.action?_of_only hst hne hlt hcalls fun a ha => ?_
  subst hlabels
  rcases calls_cases hb hg hpath hst ha with ⟨dest, rfl, -, rfl | ⟨-, rest', heq⟩⟩ |
    ⟨r', hr', rfl, ⟨hclause', -⟩ | ⟨op, -, -, rest', heq⟩⟩ | ⟨-, -, heq⟩
  · rcases hc with heoi | hop
    · exact absurd heoi (hg.terminal _ List.mem_cons_self).2.1
    · exact absurd hop (List.nodup_cons.mp o.nodup).1
  · exact absurd (List.cons.inj heq).1 hnumber
  · rw [hg.eq_of_clause_eq hr' hr (hclause'.trans hclause.symm)]
  · exact absurd (List.cons.inj heq).1 hnumber
  · exact absurd (List.cons.inj heq).1 hnumber

/-- After an operand an operator is shifted, unless the one before the operand takes it. -/
lemma action?_operator (hlevel : o.InForce g) (hlabels : labels = o.expression :: rest)
    (hop : op ∈ o.symbols) (hsecond : ∀ op' ∈ rest.head?, o.Second op' op)
    (htarget : st.target? (.terminal op) = some dest) :
    t.action? (Configuration.topState frames) op = some (.shift dest) := by
  obtain ⟨hne, hlt⟩ := hg.column (.inr (List.mem_cons_of_mem _ hop))
  have hshift := (hb.calls_shift_iff (List.mem_of_getElem? hst)).mpr htarget
  subst hlabels
  have honly : ∀ a, st.Calls (g.productions o.expression).basis op a → a = .shift dest ∨
      ∃ r ∈ g.rules, a = .reduce r.id ∧ ∃ op' ∈ o.symbols,
        r.clause = [o.expression, op', o.expression] ∧ op' ∈ rest.head? := by
    intro a ha
    rcases calls_cases hb hg hpath hst ha with ⟨dest', rfl, htarget', -⟩ |
      ⟨r, hr, rfl, ⟨-, rest', heq⟩ | ⟨op', hop', hclause, rest', heq⟩⟩ | ⟨-, heoi, -⟩
    · rw [Option.some.inj (htarget'.symm.trans htarget)]
      exact .inl rfl
    · exact absurd (List.cons.inj heq).1.symm (hg.ne_expression List.mem_cons_self)
    · rw [(List.cons.inj heq).2]
      exact .inr ⟨r, hr, rfl, op', hop', hclause, rfl⟩
    · exact absurd heoi (hg.terminal _ (List.mem_cons_of_mem _ hop)).2.1
  by_cases hreduce : ∃ id, st.Calls (g.productions o.expression).basis op (.reduce id)
  · obtain ⟨id, hreduce⟩ := hreduce
    rcases honly _ hreduce with heq | ⟨r, hr, heq, op', hop', hclause, hhead⟩
    · cases heq
    cases heq
    rw [← arbitrate_of_second hg hr hop hclause (hlevel r hr op' hop' hclause) (hsecond op' hhead)]
    refine hb.action?_of_both hst hne hlt hshift hreduce fun a ha => ?_
    rcases honly a ha with rfl | ⟨r', hr', rfl, op'', -, hclause', hhead'⟩
    · exact .inl rfl
    · obtain rfl := Option.some.inj (hhead.symm.trans hhead')
      rw [hg.eq_of_clause_eq hr' hr (hclause'.trans hclause.symm)]
      exact .inr rfl
  · refine hb.action?_of_only hst hne hlt hshift fun a ha => ?_
    rcases honly a ha with rfl | ⟨r, -, rfl, -⟩
    · rfl
    · exact absurd ⟨_, ha⟩ hreduce

/-- After the second operand of an operator its rule is reduced, unless the operator ahead takes the
operand. -/
lemma action?_after_operand (hlevel : o.InForce g)
    (hlabels : labels = o.expression :: op :: rest) (hop : op ∈ o.symbols)
    (hc : c = SymbolId.eoi ∨ c ∈ o.symbols ∧ o.First op c) (hr : r ∈ g.rules)
    (hclause : r.clause = [o.expression, op, o.expression])
    (hcalls : st.Calls (g.productions o.expression).basis c (.reduce r.id)) :
    t.action? (Configuration.topState frames) c = some (.reduce r.id) := by
  have hmem := hc.imp_right And.left
  obtain ⟨hne, hlt⟩ := hg.column (hmem.imp_right (List.mem_cons_of_mem _))
  subst hlabels
  have honly : ∀ a, st.Calls (g.productions o.expression).basis c a → a = .reduce r.id ∨
      ∃ dest, a = .shift dest ∧ st.target? (.terminal c) = some dest ∧ c ∈ o.symbols := by
    intro a ha
    rcases calls_cases hb hg hpath hst ha with ⟨dest, rfl, htarget, hshift⟩ |
      ⟨r', hr', rfl, ⟨-, rest', heq⟩ | ⟨op', -, hclause', rest', heq⟩⟩ | ⟨-, -, heq⟩
    · refine .inr ⟨dest, rfl, htarget, hshift.elim (fun hnumber => ?_) And.left⟩
      subst hnumber
      exact hmem.resolve_left (hg.terminal _ List.mem_cons_self).2.1
    · exact absurd (List.cons.inj heq).1.symm (hg.ne_expression List.mem_cons_self)
    · simp only [List.cons.injEq, true_and] at heq
      rw [← heq.1, ← hclause] at hclause'
      rw [hg.eq_of_clause_eq hr' hr hclause']
      exact .inl rfl
    · cases heq
  by_cases hshift : ∃ dest, st.Calls (g.productions o.expression).basis c (.shift dest)
  · obtain ⟨dest, hshift⟩ := hshift
    rcases honly _ hshift with heq | ⟨dest', heq, htarget, hc'⟩
    · cases heq
    cases heq
    have hfirst := (hc.resolve_left (hg.terminal _ (List.mem_cons_of_mem _ hc')).2.1).2
    rw [← arbitrate_of_first hg hr hc' hclause (hlevel r hr op hop hclause) hfirst]
    refine hb.action?_of_both hst hne hlt hshift hcalls fun a ha => ?_
    rcases honly a ha with rfl | ⟨dest', rfl, htarget', -⟩
    · exact .inr rfl
    · rw [Option.some.inj (htarget'.symm.trans htarget)]
      exact .inl rfl
  · refine hb.action?_of_only hst hne hlt hcalls fun a ha => ?_
    rcases honly a ha with rfl | ⟨dest, rfl, -⟩
    · rfl
    · exact absurd ⟨_, ha⟩ hshift

/-- After all operands the parse ends. -/
lemma action?_accept (hlabels : labels = [o.expression])
    (hcalls : st.Calls (g.productions o.expression).basis SymbolId.eoi .accept) :
    t.action? (Configuration.topState frames) SymbolId.eoi = some .accept := by
  refine hb.action?_of_only hst (by decide) (hg.column (.inl rfl)).2 hcalls fun a ha => ?_
  subst hlabels
  rcases calls_cases hb hg hpath hst ha with ⟨dest, -, -, heoi | ⟨heoi, -⟩⟩ |
    ⟨r, -, -, ⟨-, rest, heq⟩ | ⟨op, -, -, rest, heq⟩⟩ | ⟨rfl, -⟩
  · exact absurd heoi.symm (hg.terminal _ List.mem_cons_self).2.1
  · exact absurd rfl (hg.terminal _ (List.mem_cons_of_mem _ heoi)).2.1
  · exact absurd (List.cons.inj heq).1.symm (hg.ne_expression List.mem_cons_self)
  · cases heq
  · rfl

end Labels

end Operators

end ShiftReduce
