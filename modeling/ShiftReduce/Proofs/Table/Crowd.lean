import ShiftReduce.Proofs.Automaton.Item
import ShiftReduce.Proofs.Grammar.Reach
/-!
# Crowded grammars

Between two rules of the accepted symbol and a last rule a grammar may have a crowd of rules for a
non-terminal that no sentence has. How long the longest of them is says how far apart the keys of
the productions are, and how many they are says with which key the last production begins.

Main statements: `Grammar.HasCrowd.productions`, `Grammar.HasCrowd.stride` and
`Grammar.HasCrowd.range_last`.
-/

namespace ShiftReduce

/-- The symbols of a crowd and its size. -/
structure Crowd where
  /-- The accepted symbol. -/
  start : SymbolId
  /-- The non-terminal with many rules. -/
  idle : SymbolId
  /-- The non-terminal of the last rule. -/
  last : SymbolId
  /-- The terminal in the short rules of the crowd. -/
  filler : SymbolId
  /-- The terminal of the last rule. -/
  ending : SymbolId
  /-- The length of the long rule. -/
  long : Nat
  /-- The number of short rules. -/
  many : Nat

namespace Crowd

/-- The rules of the crowd, the long one first. -/
def rules (c : Crowd) : List Rule :=
  .plain 2 c.idle (.replicate c.long c.idle) ::
    (List.range' 3 c.many).map fun id => .plain id c.idle [c.filler]

/-- The rule behind the crowd. -/
def lastRule (c : Crowd) : Rule := .plain (c.many + 3) c.last [c.ending]

/-- The productions of the crowd. -/
def productions (c : Crowd) : List Production :=
  ⟨c.idle, .replicate c.long (.nonterminal c.idle), some 2⟩ ::
    (List.range' 3 c.many).map fun id => ⟨c.idle, [.terminal c.filler], some id⟩

/-- The production behind the crowd. -/
def lastProduction (c : Crowd) : Production := ⟨c.last, [.terminal c.ending], some (c.many + 3)⟩

variable {c : Crowd}

lemma forall_mem_rules {P : Rule → Prop} (hlong : P (.plain 2 c.idle (.replicate c.long c.idle)))
    (hshort : ∀ id, P (.plain id c.idle [c.filler])) : ∀ r ∈ c.rules, P r := by
  refine List.forall_mem_cons.mpr ⟨hlong, fun r hr => ?_⟩
  obtain ⟨id, -, rfl⟩ := List.mem_map.mp hr
  exact hshort id

lemma target_rules : ∀ r ∈ c.rules, r.target = c.idle := forall_mem_rules rfl fun _ => rfl

lemma bounds_productions : ∀ prod ∈ c.productions,
    prod.lhs = c.idle ∧ prod.rhs.length ≤ max c.long 1 := by
  intro prod hprod
  simp only [productions, List.mem_cons, List.mem_map] at hprod
  obtain rfl | ⟨id, -, rfl⟩ := hprod
  · simp
  · simp

end Crowd

namespace Grammar

/-- The grammar has two rules for its accepted symbol, then the crowd, and then the last rule. -/
structure HasCrowd (g : Grammar) (c : Crowd) (r₀ r₁ : Rule) : Prop where
  accepts : g.target = some c.start
  rules : g.rules = [r₀, r₁] ++ c.rules ++ [c.lastRule]
  first : r₀.id = 0 ∧ r₀.target = c.start
  second : r₁.id = 1 ∧ r₁.target = c.start
  nonterminals : ∀ s ∈ [c.start, c.idle, c.last], g.symbols.isNonterminal s = true
  terminals : ∀ s ∈ [c.filler, c.ending], g.symbols.isTerminal s = true
  nodup : [c.start, c.idle, c.last].Nodup
  epsilon_notMem : SymbolId.epsilon ∉ [c.idle, c.filler, c.ending]

namespace HasCrowd

variable {g : Grammar} {c : Crowd} {r₀ r₁ : Rule} (h : g.HasCrowd c r₀ r₁)

include h

/-! ## Rules -/

lemma forall_mem {P : Rule → Prop} (h₀ : P r₀) (h₁ : P r₁)
    (hlong : P (.plain 2 c.idle (.replicate c.long c.idle)))
    (hshort : ∀ id, P (.plain id c.idle [c.filler])) (hlast : P c.lastRule) :
    ∀ r ∈ g.rules, P r := by
  rw [h.rules]
  exact List.forall_mem_append.mpr ⟨List.forall_mem_append.mpr
    ⟨List.forall_mem_cons.mpr ⟨h₀, List.forall_mem_singleton.mpr h₁⟩,
      Crowd.forall_mem_rules hlong hshort⟩, List.forall_mem_singleton.mpr hlast⟩

lemma ne : c.start ≠ c.idle ∧ c.start ≠ c.last ∧ c.idle ≠ c.last := by
  have hnodup := h.nodup
  simp only [List.nodup_cons, List.mem_cons, List.not_mem_nil, or_false, not_or] at hnodup
  exact ⟨hnodup.1.1, hnodup.1.2, hnodup.2.1⟩

lemma epsilon_ne : c.idle ≠ SymbolId.epsilon ∧ c.filler ≠ SymbolId.epsilon ∧
    c.ending ≠ SymbolId.epsilon := by
  have hepsilon := h.epsilon_notMem
  simp only [List.mem_cons, List.not_mem_nil, or_false, not_or] at hepsilon
  exact ⟨Ne.symm hepsilon.1, Ne.symm hepsilon.2.1, Ne.symm hepsilon.2.2⟩

lemma valid (hlong : c.long ≠ 0) (hreserved : SymbolTable.initial.entries <+: g.symbols.entries)
    (h₀ : r₀.clause ≠ [] ∧ ∀ s ∈ r₀.clause, g.symbols.contains s = true)
    (h₁ : r₁.clause ≠ [] ∧ ∀ s ∈ r₁.clause, g.symbols.contains s = true) : g.Valid := by
  obtain ⟨hstart, hidle, hlast⟩ : g.symbols.isNonterminal c.start = true ∧
      g.symbols.isNonterminal c.idle = true ∧ g.symbols.isNonterminal c.last = true := by
    simpa using h.nonterminals
  obtain ⟨hfiller, hending⟩ : g.symbols.isTerminal c.filler = true ∧
      g.symbols.isTerminal c.ending = true := by
    simpa using h.terminals
  refine ⟨hreserved, ?ids, ?targets, ?known, ?clauses, ?accepts⟩
  case ids =>
    have hlength : g.rules.length = 3 + c.many + 1 := by
      rw [h.rules]
      simp [Crowd.rules]
      omega
    have hrange : List.range (3 + c.many + 1) =
        [0, 1, 2] ++ List.range' 3 c.many ++ [3 + c.many] := by
      rw [List.range_succ, List.range_eq_range', ← List.range'_append_1]
      rfl
    rw [hlength, hrange, h.rules]
    simp [Crowd.rules, Crowd.lastRule, Rule.plain, Function.comp_def, Nat.add_comm, h.first.1,
      h.second.1]
  case targets =>
    exact h.forall_mem (h.first.2 ▸ hstart) (h.second.2 ▸ hstart) hidle (fun _ => hidle) hlast
  case known =>
    refine h.forall_mem h₀.2 h₁.2 (fun s hs => ?_) (fun _ => List.forall_mem_singleton.mpr ?_)
      (List.forall_mem_singleton.mpr ?_)
    · rw [List.eq_of_mem_replicate hs]
      exact decide_eq_true (SymbolTable.lt_size_of_isNonterminal hidle)
    · exact decide_eq_true (SymbolTable.lt_size_of_isTerminal hfiller)
    · exact decide_eq_true (SymbolTable.lt_size_of_isTerminal hending)
  case clauses =>
    exact h.forall_mem h₀.1 h₁.1 (by simpa [Rule.plain] using hlong)
      (fun _ => List.cons_ne_nil _ _) (List.cons_ne_nil _ _)
  case accepts =>
    rw [h.accepts, h.rules]
    exact congrArg some h.first.2.symm

lemma rulesOf_start : g.rulesOf c.start = [r₀, r₁] := by
  have hcrowd : c.rules.filter (fun r => r.target == c.start) = [] :=
    List.filter_eq_nil_iff.mpr fun r hr => by simpa [Crowd.target_rules r hr] using h.ne.1.symm
  rw [rulesOf, h.rules, List.filter_append, List.filter_append, hcrowd]
  simp [Crowd.lastRule, Rule.plain, h.first.2, h.second.2, h.ne.2.1.symm]

lemma rulesOf_idle : g.rulesOf c.idle = c.rules := by
  have hcrowd : c.rules.filter (fun r => r.target == c.idle) = c.rules :=
    List.filter_eq_self.mpr fun r hr => by simp [Crowd.target_rules r hr]
  rw [rulesOf, h.rules, List.filter_append, List.filter_append, hcrowd]
  simp [Crowd.lastRule, Rule.plain, h.first.2, h.second.2, h.ne.1, h.ne.2.2.symm]

lemma rulesOf_last : g.rulesOf c.last = [c.lastRule] := by
  have hcrowd : c.rules.filter (fun r => r.target == c.last) = [] :=
    List.filter_eq_nil_iff.mpr fun r hr => by simpa [Crowd.target_rules r hr] using h.ne.2.2
  rw [rulesOf, h.rules, List.filter_append, List.filter_append, hcrowd]
  simp [Crowd.lastRule, Rule.plain, h.first.2, h.second.2, h.ne.2.1]

lemma targets : g.targets = [c.start, c.idle, c.last] := by
  have hfront : ([r₀, r₁].map Rule.target).foldl
      (fun seen s => if seen.contains s then seen else seen ++ [s]) [] = [c.start] := by
    simp [h.first.2, h.second.2]
  have hcrowd : (c.rules.map Rule.target).foldl
      (fun seen s => if seen.contains s then seen else seen ++ [s]) [c.start] =
        [c.start, c.idle] := by
    have hshort : ∀ s ∈ c.rules.tail.map Rule.target, s ∈ [c.start, c.idle] := by
      intro s hs
      obtain ⟨r, hr, rfl⟩ := List.mem_map.mp hs
      rw [Crowd.target_rules r (List.mem_of_mem_tail hr)]
      exact List.mem_cons_of_mem _ (List.mem_singleton_self c.idle)
    have hlong : c.rules.map Rule.target = c.idle :: c.rules.tail.map Rule.target := rfl
    have hnew : ([c.start].contains c.idle) = false := by simpa using h.ne.1.symm
    rw [hlong, List.foldl_cons, hnew, if_neg Bool.false_ne_true]
    exact foldl_distinct_of_subset hshort
  rw [Grammar.targets, h.rules, List.map_append, List.map_append, List.foldl_append,
    List.foldl_append, hfront, hcrowd]
  simp [Crowd.lastRule, Rule.plain, h.ne.2.1.symm, h.ne.2.2.symm]

/-! ## Productions -/

lemma part_terminal {s : SymbolId} (hs : s ∈ [c.filler, c.ending]) : g.part s = .terminal s :=
  part_eq_terminal_of_isTerminal (h.terminals s hs)

lemma block_idle (hlong : c.long ≠ 0) : g.block c.idle = c.productions := by
  obtain ⟨hidle, hfiller, -⟩ := h.epsilon_ne
  have hempty : Rule.isEmpty (.plain 2 c.idle (.replicate c.long c.idle)) = false := by
    simp [Rule.isEmpty, Rule.plain, hlong, hidle]
  have hpart : g.part c.idle = .nonterminal c.idle :=
    part_eq_nonterminal (h.nonterminals _ (by simp))
  have hterminal := h.part_terminal (s := c.filler) (by simp)
  have hfirst : g.production (.plain 2 c.idle (.replicate c.long c.idle)) =
      ⟨c.idle, .replicate c.long (.nonterminal c.idle), some 2⟩ := by
    rw [production, Rule.symbols, hempty, if_neg Bool.false_ne_true, Rule.plain, List.map_replicate,
      hpart]
  have hshort : ∀ id, g.production (.plain id c.idle [c.filler]) =
      ⟨c.idle, [.terminal c.filler], some id⟩ := by
    intro id
    simp [production, Rule.symbols, Rule.isEmpty, Rule.plain, hfiller, hterminal]
  rw [block, h.rulesOf_idle, Crowd.rules, List.map_cons, List.map_map, hfirst, Crowd.productions]
  exact congrArg _ (List.map_congr_left fun id _ => hshort id)

/-- The productions of the accepted symbol, that of `^` in front. -/
def front (g : Grammar) (c : Crowd) (r₀ r₁ : Rule) : List Production :=
  [⟨g.symbols.size, [.nonterminal c.start], none⟩, g.production r₀, g.production r₁]

lemma productions (hlong : c.long ≠ 0) : (g.productions c.start).list.toList =
    front g c r₀ r₁ ++ c.productions ++ [c.lastProduction] := by
  have hstart : g.startProduction c.start = ⟨g.symbols.size, [.nonterminal c.start], none⟩ := by
    rw [startProduction, part_eq_nonterminal (h.nonterminals _ (by simp))]
  have hlast : g.production c.lastRule = c.lastProduction := by
    simp [production, Rule.symbols, Rule.isEmpty, Crowd.lastRule, Crowd.lastProduction, Rule.plain,
      h.epsilon_ne.2.2, h.part_terminal (s := c.ending) (by simp)]
  rw [productions_list, h.targets, List.flatMap_cons, List.flatMap_cons, List.flatMap_cons,
    h.block_idle hlong, block, h.rulesOf_start, block, h.rulesOf_last, List.flatMap_nil,
    List.append_nil, hstart]
  simp [front, hlast]

lemma size (hlong : c.long ≠ 0) : (g.productions c.start).list.size = c.many + 5 := by
  rw [← Array.length_toList, h.productions hlong]
  simp [front, Crowd.productions]

/-- The production of the last rule has the number that the crowd in front of it leaves it. -/
lemma get?_last (hlong : c.long ≠ 0) :
    (g.productions c.start).get? (c.many + 4) = some c.lastProduction := by
  have hlength : (front g c r₀ r₁ ++ c.productions).length = c.many + 4 := by
    simp [front, Crowd.productions]
  rw [Productions.get?, ← Array.getElem?_toList, h.productions hlong,
    List.getElem?_append_right (Nat.le_of_eq hlength), hlength, Nat.sub_self]
  rfl

/-- The long rule is the longest, if the rules of the accepted symbol are no longer. -/
lemma stride (hlong : 1 ≤ c.long) (hfront : ∀ prod ∈ front g c r₀ r₁, prod.rhs.length ≤ c.long) :
    (g.productions c.start).stride = c.long + 1 := by
  have hidle : (g.productions c.start).get? 3 =
      some ⟨c.idle, .replicate c.long (.nonterminal c.idle), some 2⟩ := by
    rw [Productions.get?, ← Array.getElem?_toList, h.productions (by omega)]
    rfl
  have hge := Productions.length_lt_stride hidle
  rw [List.length_replicate] at hge
  have hle : ∀ prod ∈ (g.productions c.start).list.toList, prod.rhs.length ≤ c.long := by
    rw [h.productions (by omega)]
    refine List.forall_mem_append.mpr ⟨List.forall_mem_append.mpr ⟨hfront, fun prod hprod => ?_⟩,
      List.forall_mem_singleton.mpr hlong⟩
    exact (Crowd.bounds_productions prod hprod).2.trans (by omega)
  exact Nat.le_antisymm (Nat.succ_le_succ (foldl_max_le hle (Nat.zero_le _))) hge

lemma range_start (hlong : c.long ≠ 0) : (g.productions c.start).range c.start = [1, 2] := by
  have hcount : c.productions.countP (fun p => p.lhs == c.start) = 0 :=
    List.countP_eq_zero.mpr fun prod hprod => by
      simpa [(Crowd.bounds_productions prod hprod).1] using h.ne.1.symm
  have hsize : (g.symbols.size == c.start) = false := beq_false_of_ne
    (Nat.ne_of_lt (SymbolTable.lt_size_of_isNonterminal (h.nonterminals _ (by simp)))).symm
  rw [Productions.range, Productions.first, Productions.count, h.productions hlong,
    List.countP_append, List.countP_append, hcount]
  simp [front, Crowd.lastProduction, production, h.first.2, h.second.2, hsize, h.ne.2.1.symm,
    List.findIdx_cons, List.range'_succ]

lemma range_last (hlong : c.long ≠ 0) :
    (g.productions c.start).range c.last = [c.many + 4] := by
  have hnone : ∀ prod ∈ c.productions, (prod.lhs == c.last) = false := fun prod hprod => by
    simpa [(Crowd.bounds_productions prod hprod).1] using h.ne.2.2
  have hlength : c.productions.length = c.many + 1 := by simp [Crowd.productions]
  have hfind : c.productions.findIdx (fun p => p.lhs == c.last) = c.many + 1 := by
    rw [List.findIdx_eq_length.mpr hnone, hlength]
  have hcount : c.productions.countP (fun p => p.lhs == c.last) = 0 :=
    List.countP_eq_zero.mpr fun prod hprod => by simp [hnone prod hprod]
  have hsize : (g.symbols.size == c.last) = false := beq_false_of_ne
    (Nat.ne_of_lt (SymbolTable.lt_size_of_isNonterminal (h.nonterminals _ (by simp)))).symm
  have hstart : (c.start == c.last) = false := beq_false_of_ne h.ne.2.1
  rw [Productions.range, Productions.first, Productions.count, h.productions hlong,
    List.countP_append, List.countP_append, hcount, List.findIdx_append, List.findIdx_append]
  simp [front, Crowd.lastProduction, production, h.first.2, h.second.2, hsize, hstart, hfind,
    hlength, List.findIdx_cons]

lemma visitBound (hlong : c.long ≠ 0) : 9 ≤ (g.productions c.start).basis.visitBound := by
  have hcount : 5 ≤ (g.productions c.start).basis.itemCount := by
    rw [Basis.itemCount, Productions.basis_productions, h.size hlong]
    omega
  calc 9 ≤ 2 ^ 5 * 1 + 1 := by decide
    _ ≤ (g.productions c.start).basis.visitBound :=
      Nat.succ_le_succ (Nat.mul_le_mul (Nat.pow_le_pow_right (by decide) hcount)
        (Nat.succ_le_succ (Nat.zero_le _)))

/-- Nothing is undefined, if there are no other non-terminals. -/
lemma validate (hnonterminals : ∀ s < g.symbols.size, g.symbols.isNonterminal s = true →
    s ∈ [c.start, c.idle, c.last]) : g.validate = .ok () := by
  have hdefined : ∀ s ∈ [c.start, c.idle, c.last], ∃ r ∈ g.rules, r.target = s := fun s hs => by
    rw [← h.targets] at hs
    exact mem_targets.mp hs
  exact validate_eq_ok h.accepts (hdefined _ (by simp)) fun r hr s hs hnonterminal =>
    hdefined s (hnonterminals s (SymbolTable.lt_size_of_isNonterminal hnonterminal) hnonterminal)

end HasCrowd

end Grammar

end ShiftReduce
