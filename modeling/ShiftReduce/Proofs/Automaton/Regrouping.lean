import ShiftReduce.Proofs.Automaton.Production
/-!
# Rules regrouped as productions

The productions of a grammar are its rules in another order, behind a production of `^`. The
non-terminals are lined up first: `^`, those that rules define, in the order of their first rules,
and those that clauses only mention. Then each has its block of productions, one for each of its
rules in the order of the rules, and nothing stands between the blocks. So a non-terminal without
rules has an empty block, and the numbers of the productions fall into the ranges of the
non-terminals, one range after another.

Main statement: `Grammar.Valid.productions_regrouped`.
-/

namespace ShiftReduce

/-! ## Blocks side by side -/

namespace Productions

section Blocks

variable {ps : Productions} {symbols front back : List SymbolId} {s : SymbolId}
  {block : SymbolId → List Production}
  (hlist : ps.list.toList = symbols.flatMap block) (hsymbols : symbols.Nodup)
  (hlhs : ∀ s, ∀ prod ∈ block s, prod.lhs = s)

include hlhs in
lemma lhs_beq_eq_false {l : List SymbolId} (hs : s ∉ l) :
    ∀ prod ∈ l.flatMap block, (prod.lhs == s) = false := by
  intro prod hprod
  obtain ⟨t, ht, hprod⟩ := List.mem_flatMap.mp hprod
  rw [hlhs t prod hprod, beq_eq_false_iff_ne]
  rintro rfl
  exact hs ht

include hlist hsymbols hlhs

/-- The range of a symbol begins behind the blocks of the symbols before it. -/
lemma range_eq_of_split (hsplit : symbols = front ++ s :: back) :
    ps.range s = List.range' (front.flatMap block).length (block s).length := by
  rw [hsplit, List.nodup_append] at hsymbols
  obtain ⟨-, hback, hfront⟩ := hsymbols
  have hs : s ∉ front := fun h => hfront s h s List.mem_cons_self rfl
  have hlist' : ps.list.toList = front.flatMap block ++ block s ++ back.flatMap block := by
    rw [hlist, hsplit, List.flatMap_append, List.flatMap_cons, List.append_assoc]
  rw [range, first, count, hlist']
  exact range'_block _ _ _ _ (lhs_beq_eq_false hlhs hs)
    (fun prod hprod => beq_iff_eq.mpr (hlhs s prod hprod))
    (lhs_beq_eq_false hlhs (List.nodup_cons.mp hback).1)

omit hsymbols in
lemma range_eq_nil_of_notMem (hs : s ∉ symbols) : ps.range s = [] := by
  rw [range, count, hlist, List.countP_eq_zero.mpr, List.range'_zero]
  intro prod hprod
  rw [lhs_beq_eq_false hlhs hs prod hprod]
  exact Bool.false_ne_true

/-- At the numbers of the range of a symbol stands its block. -/
lemma map_get?_range (hs : s ∈ symbols) : (ps.range s).map ps.get? = (block s).map some := by
  obtain ⟨front, back, hsplit⟩ := List.append_of_mem hs
  rw [range_eq_of_split hlist hsymbols hlhs hsplit]
  refine List.ext_getElem (by simp) fun i hi hi' => ?_
  rw [List.length_map, List.length_range'] at hi
  rw [List.getElem_map, List.getElem_map, List.getElem_range', Nat.one_mul, get?,
    ← Array.getElem?_toList, hlist, hsplit, List.flatMap_append, List.flatMap_cons,
    List.getElem?_append_right (Nat.le_add_right _ _), Nat.add_sub_cancel_left,
    List.getElem?_append_left hi, List.getElem?_eq_getElem hi]

/-- The ranges of the symbols, one after another, are the numbers of all productions. -/
lemma flatMap_range : symbols.flatMap ps.range = List.range ps.list.size := by
  have hback : ∀ back front : List SymbolId, symbols = front ++ back →
      back.flatMap ps.range =
        List.range' (front.flatMap block).length (back.flatMap block).length := by
    intro back
    induction back with
    | nil => exact fun _ _ => rfl
    | cons s back ih =>
      intro front hsplit
      have hrest := ih (front ++ [s]) (by rw [hsplit, List.append_assoc, List.singleton_append])
      rw [List.flatMap_append, List.length_append, List.flatMap_singleton] at hrest
      rw [List.flatMap_cons, hrest, range_eq_of_split hlist hsymbols hlhs hsplit,
        List.range'_append_1, List.flatMap_cons, List.length_append]
  rw [hback symbols [] rfl, ← hlist, Array.length_toList, List.range_eq_range']
  rfl

end Blocks

end Productions

namespace Grammar

variable {g : Grammar} {target s : SymbolId}

/-! ## The non-terminals lined up -/

/-- The non-terminals that productions speak of: `^`, those that rules define, in the order of their
first rules, and those that clauses only mention, in the order in which they do. -/
def nonterminals (g : Grammar) : List SymbolId :=
  ((g.rules.flatMap Rule.symbols).filter g.symbols.isNonterminal).foldl
    (fun seen s => if seen.contains s then seen else seen ++ [s]) (g.symbols.size :: g.targets)

/-- The productions of a non-terminal, in order. -/
def blockOf (g : Grammar) (target s : SymbolId) : List Production :=
  if s = g.symbols.size then [g.startProduction target] else g.block s

lemma mem_nonterminals : s ∈ g.nonterminals ↔ s = g.symbols.size ∨
    (∃ r ∈ g.rules, r.target = s) ∨
      (∃ r ∈ g.rules, s ∈ r.symbols) ∧ g.symbols.isNonterminal s := by
  rw [nonterminals, mem_foldl_distinct, List.mem_cons, mem_targets, or_assoc, List.mem_filter,
    List.mem_flatMap]

/-- Gathering symbols only appends. -/
lemma exists_foldl_distinct (l acc : List SymbolId) : ∃ new,
    l.foldl (fun seen s => if seen.contains s then seen else seen ++ [s]) acc = acc ++ new ∧
      ∀ s ∈ new, s ∉ acc := by
  induction l generalizing acc with
  | nil => exact ⟨[], (List.append_nil acc).symm, fun _ h => absurd h List.not_mem_nil⟩
  | cons t l ih =>
    rw [List.foldl_cons]
    split
    · exact ih acc
    · next hnot =>
      obtain ⟨new, heq, hnew⟩ := ih (acc ++ [t])
      refine ⟨t :: new, by rw [heq, List.append_assoc, List.singleton_append], ?_⟩
      refine List.forall_mem_cons.mpr ⟨fun h => hnot (List.contains_iff_mem.mpr h), ?_⟩
      exact fun s hs hacc => hnew s hs (List.mem_append_left _ hacc)

lemma lhs_of_mem_blockOf {prod : Production} (h : prod ∈ g.blockOf target s) : prod.lhs = s := by
  rw [blockOf] at h
  split at h
  · next hs => rw [List.mem_singleton.mp h, hs, startProduction]
  · exact lhs_of_mem_block h

/-- A symbol that no rule defines has no rules. -/
lemma block_eq_nil (hs : s ∉ g.targets) : g.block s = [] := by
  rw [block, List.map_eq_nil_iff, List.eq_nil_iff_forall_not_mem]
  intro r hr
  obtain ⟨hmem, htarget⟩ := mem_rulesOf.mp hr
  exact hs (mem_targets.mpr ⟨r, hmem, htarget⟩)

namespace Valid

lemma size_notMem_targets (hg : g.Valid) : g.symbols.size ∉ g.targets := by
  intro h
  obtain ⟨r, hr, htarget⟩ := mem_targets.mp h
  have hlt := SymbolTable.lt_size_of_isNonterminal (hg.target_nonterminal r hr)
  rw [htarget] at hlt
  exact Nat.lt_irrefl _ hlt

lemma nodup_nonterminals (hg : g.Valid) : g.nonterminals.Nodup :=
  nodup_foldl_distinct _ _ (List.nodup_cons.mpr ⟨hg.size_notMem_targets, g.nodup_targets⟩)

/-- The productions are the blocks of the non-terminals. -/
lemma productions_eq_flatMap (hg : g.Valid) (target : SymbolId) :
    (g.productions target).list.toList = g.nonterminals.flatMap (g.blockOf target) := by
  obtain ⟨new, hnew, hnot⟩ := exists_foldl_distinct
    ((g.rules.flatMap Rule.symbols).filter g.symbols.isNonterminal) (g.symbols.size :: g.targets)
  have hdefined : g.targets.flatMap (g.blockOf target) = g.targets.flatMap g.block :=
    List.flatMap_congr fun s hs =>
      if_neg fun h : s = g.symbols.size => hg.size_notMem_targets (h ▸ hs)
  have hmentioned : new.flatMap (g.blockOf target) = [] := by
    refine List.flatMap_eq_nil_iff.mpr fun s hs => ?_
    have hs := hnot s hs
    rw [List.mem_cons, not_or] at hs
    rw [blockOf, if_neg hs.1, block_eq_nil hs.2]
  rw [productions_list, nonterminals, hnew, List.flatMap_append, hmentioned, List.append_nil,
    List.flatMap_cons, hdefined, blockOf, if_pos rfl, List.singleton_append]

end Valid

/-! ## The regrouping -/

/-- The productions are the rules of the grammar regrouped, behind `^ → target`. -/
structure Regrouped (g : Grammar) (target : SymbolId) (ps : Productions) : Prop where
  start : ps.get? 0 = some ⟨g.symbols.size, [.nonterminal target], none⟩
  /-- Only the first production stands for no rule. -/
  rule_eq_none : ∀ p prod, ps.get? p = some prod → (prod.rule = none ↔ p = 0)
  /-- Every rule has one production. -/
  existsUnique : ∀ id r, g.rule? id = some r →
    ∃! p, ∃ prod, ps.get? p = some prod ∧ prod.rule = some id
  /-- The production of a rule has its target and its symbols, each as what it is. -/
  production : ∀ p prod id, ps.get? p = some prod → prod.rule = some id →
    ∃ r, g.rule? id = some r ∧ prod.lhs = r.target ∧ prod.rhs.map Part.symbol = r.symbols ∧
      ∀ part ∈ prod.rhs, part = if g.symbols.isNonterminal part.symbol then
        .nonterminal part.symbol else .terminal part.symbol
  /-- The range of a symbol has the numbers of its productions. -/
  mem_range : ∀ s p, p ∈ ps.range s ↔ ∃ prod, ps.get? p = some prod ∧ prod.lhs = s
  /-- In the range of a symbol the productions come in the order of the rules. -/
  rules_range : ∀ s, s ≠ g.symbols.size →
    (ps.range s).map (fun p => (ps.get? p).bind Production.rule) =
        (g.rulesOf s).map (fun r => some r.id) ∧
      ((g.rulesOf s).map Rule.id).Pairwise (· < ·)
  /-- The ranges of the non-terminals, one after another, are the numbers of all productions. -/
  flatMap_range : g.nonterminals.flatMap ps.range = List.range ps.list.size
  nodup : g.nonterminals.Nodup
  /-- The non-terminals of productions are among those lined up, and `^` is in no right-hand
  side. -/
  part_mem : ∀ p prod, ps.get? p = some prod → prod.lhs ∈ g.nonterminals ∧
    ∀ s, .nonterminal s ∈ prod.rhs → s ∈ g.nonterminals ∧ s ≠ g.symbols.size

namespace Valid

variable {id : RuleId} {r : Rule} {p : Nat} {prod : Production}

/-- The rules of a symbol are in ascending order. -/
lemma pairwise_rulesOf (hg : g.Valid) (s : SymbolId) :
    ((g.rulesOf s).map Rule.id).Pairwise (· < ·) := by
  have hids : (g.rules.map Rule.id).Pairwise (· < ·) := hg.ids ▸ List.pairwise_lt_range
  exact hids.sublist (List.filter_sublist.map Rule.id)

/-- A production of a rule is the one that the rule is turned into. -/
lemma exists_rule_of_rule_eq (hg : g.Valid) (ht : g.target = some target)
    (hp : (g.productions target).get? p = some prod) (hrule : prod.rule = some id) :
    ∃ r, g.rule? id = some r ∧ g.production r = prod := by
  have hne : p ≠ 0 := by
    rintro rfl
    rw [(hg.proper_productions ht).start, Option.some.injEq] at hp
    rw [← hp] at hrule
    cases hrule
  obtain ⟨r, hr, rfl⟩ := exists_rule_of_productions_get? hp hne
  cases hrule
  exact ⟨r, hg.rule?_id hr, rfl⟩

/-- Only the first production stands for no rule. -/
lemma rule_eq_none_iff (hg : g.Valid) (ht : g.target = some target)
    (hp : (g.productions target).get? p = some prod) : prod.rule = none ↔ p = 0 := by
  constructor
  · intro hnone
    by_contra hne
    obtain ⟨r, -, rfl⟩ := exists_rule_of_productions_get? hp hne
    cases hnone
  · rintro rfl
    rw [(hg.proper_productions ht).start, Option.some.injEq] at hp
    rw [← hp]

/-- Two productions that stand for the same are one. -/
lemma production_unique (hg : g.Valid) (ht : g.target = some target) {q : Nat} {prod' : Production}
    (hp : (g.productions target).get? p = some prod)
    (hq : (g.productions target).get? q = some prod') (hrule : prod.rule = prod'.rule) : p = q := by
  cases hid : prod.rule with
  | none =>
    rw [(hg.rule_eq_none_iff ht hp).mp hid, (hg.rule_eq_none_iff ht hq).mp (hrule ▸ hid)]
  | some id =>
    obtain ⟨r, hr, rfl⟩ := hg.exists_rule_of_rule_eq ht hp hid
    obtain ⟨r', hr', rfl⟩ := hg.exists_rule_of_rule_eq ht hq (hrule ▸ hid)
    obtain rfl := Option.some.inj (hr.symm.trans hr')
    -- both are in the block of the target, which has every rule once
    have hmem : r.target ∈ g.nonterminals :=
      mem_nonterminals.mpr (.inr (.inl ⟨r, List.mem_of_getElem? hr, rfl⟩))
    have hne : r.target ≠ g.symbols.size := fun h =>
      hg.size_notMem_targets (h ▸ mem_targets.mpr ⟨r, List.mem_of_getElem? hr, rfl⟩)
    have hmap := Productions.map_get?_range (hg.productions_eq_flatMap target) hg.nodup_nonterminals
      (fun _ _ => lhs_of_mem_blockOf) hmem
    have hnodup :
        (((g.productions target).range r.target).map (g.productions target).get?).Nodup := by
      rw [hmap, blockOf, if_neg hne, block, List.map_map]
      refine List.pairwise_map.mpr ((List.pairwise_map.mp (hg.pairwise_rulesOf r.target)).imp ?_)
      intro a b hab heq
      have hrules : some a.id = some b.id := congrArg Production.rule (Option.some.inj heq)
      exact Nat.ne_of_lt hab (Option.some.inj hrules)
    have hrange : ∀ {i}, (g.productions target).get? i = some (g.production r) →
        i ∈ (g.productions target).range r.target := fun hi =>
      hg.mem_range_productions.mpr ⟨_, hi, rfl⟩
    exact List.inj_on_of_nodup_map hnodup (hrange hp) (hrange hq) (hp.trans hq.symm)

/-- The productions of a grammar are its rules regrouped: one block for every non-terminal, with one
production for every rule. -/
theorem productions_regrouped (hg : g.Valid) (hrules : g.rules ≠ []) :
    ∃ target, g.target = some target ∧ g.Regrouped target (g.productions target) := by
  obtain ⟨r₀, rest, hr₀⟩ := List.exists_cons_of_ne_nil hrules
  have ht : g.target = some r₀.target := by rw [hg.accepts_first, hr₀]; rfl
  have hps := hg.proper_productions ht
  have hlist := hg.productions_eq_flatMap r₀.target
  refine ⟨r₀.target, ht, hps.start, fun p prod => hg.rule_eq_none_iff ht, ?existsUnique,
    ?production, fun s p => hps.mem_range, ?rules_range, ?flatMap_range, hg.nodup_nonterminals,
    ?part_mem⟩
  case existsUnique =>
    intro id r hr
    have hid : (g.production r).rule = some id := by rw [production, hg.rule_id hr]
    obtain ⟨p, hp⟩ := exists_productions_get?_of_rule r₀.target (List.mem_of_getElem? hr)
    refine ⟨p, ⟨_, hp, hid⟩, ?_⟩
    rintro q ⟨prod, hq, hrule⟩
    exact hg.production_unique ht hq hp (hrule.trans hid.symm)
  case production =>
    intro p prod id hp hrule
    obtain ⟨r, hr, rfl⟩ := hg.exists_rule_of_rule_eq ht hp hrule
    exact ⟨r, hr, rfl, g.map_symbol_part r.symbols,
      fun part hpart => (hg.part_symbol_of_mem ht hp hpart).symm⟩
  case rules_range =>
    intro s hs
    refine ⟨?_, hg.pairwise_rulesOf s⟩
    have hcomp : (fun p => ((g.productions r₀.target).get? p).bind Production.rule) =
        (fun o : Option Production => o.bind Production.rule) ∘ (g.productions r₀.target).get? :=
      rfl
    by_cases hmem : s ∈ g.nonterminals
    · rw [hcomp, ← List.map_map, Productions.map_get?_range hlist hg.nodup_nonterminals
        (fun _ _ => lhs_of_mem_blockOf) hmem, blockOf, if_neg hs, block, List.map_map, List.map_map]
      rfl
    · have hnil := block_eq_nil fun h =>
        hmem (mem_nonterminals.mpr (.inr (.inl (mem_targets.mp h))))
      rw [block, List.map_eq_nil_iff] at hnil
      rw [Productions.range_eq_nil_of_notMem hlist (fun _ _ => lhs_of_mem_blockOf) hmem, hnil]
      rfl
  case flatMap_range =>
    exact Productions.flatMap_range hlist hg.nodup_nonterminals fun _ _ => lhs_of_mem_blockOf
  case part_mem =>
    intro p prod hp
    have hmem : prod ∈ (g.productions r₀.target).list.toList := by
      rw [← Array.mem_def]
      exact Array.mem_of_getElem? hp
    rw [hlist] at hmem
    obtain ⟨s, hs, hprod⟩ := List.mem_flatMap.mp hmem
    refine ⟨lhs_of_mem_blockOf hprod ▸ hs, fun t ht' => ?_⟩
    have hlt : t < g.symbols.size := hps.symbol_lt hp _ ht'
    refine ⟨mem_nonterminals.mpr (.inr ?_), Nat.ne_of_lt hlt⟩
    by_cases h0 : p = 0
    · subst h0
      rw [hps.start, Option.some.injEq] at hp
      rw [← hp, List.mem_singleton, Part.nonterminal.injEq] at ht'
      exact .inl ⟨r₀, by rw [hr₀]; exact List.mem_cons_self, ht'.symm⟩
    · obtain ⟨r, hr, rfl⟩ := exists_rule_of_productions_get? hp h0
      obtain ⟨u, hu, hpart⟩ := List.mem_map.mp ht'
      have hut : u = t := by rw [← g.part_symbol u, hpart, Part.symbol]
      subst hut
      exact .inr ⟨⟨r, hr, hu⟩, isNonterminal_of_part_eq hpart⟩

end Valid

end Grammar

end ShiftReduce
