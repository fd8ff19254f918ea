import ShiftReduce.Proofs.Automaton.FirstSet
import ShiftReduce.Proofs.Grammar.Fragment
import Mathlib.Data.List.Sort
/-!
# The productions of a fragment

The fragment of a grammar for its accepted symbol `s` has two productions in front, `^ → start` and
`start → s`, of which the second stands where the grammar has `^ → s`. After them come the
productions of the symbols below `s` in their order, each for the copy of its rule.

So the strings of terminals and of symbols below `s` derive in the fragment what they derive in the
grammar, and the same terminals come ahead of them.

Main statements: `Grammar.IsFragment.productions_eq`, `Grammar.IsFragment.range_eq` and
`Grammar.IsFragment.ahead_eq`.
-/

namespace ShiftReduce

namespace Grammar

variable {g h : Grammar} {s t : SymbolId} {p q : Nat} {prod prod' : Production}
  {α β : List Part} {r : Rule}

/-! ## The productions that are kept -/

/-- Is it the first production, or one of a symbol below the accepted one? -/
def kept (g : Grammar) (s : SymbolId) (prod : Production) : Bool :=
  prod.rule.isNone || g.reached s prod.lhs

/-- The production for the copy of its rule; the first one is made the one of the start rule. -/
def copyProduction (g : Grammar) (s : SymbolId) (prod : Production) : Production :=
  { prod with rule := some ((prod.rule.map (g.copyOf s)).getD 0) }

/-- The number in the fragment of a production that is kept. -/
def placeOf (g : Grammar) (s : SymbolId) (p : Nat) : Nat :=
  ((g.productions s).list.toList.take p).countP (g.kept s) + 1

section Targets

lemma filter_foldl_distinct (test : SymbolId → Bool) (l acc : List SymbolId) :
    (l.filter test).foldl (fun seen s => if seen.contains s then seen else seen ++ [s])
        (acc.filter test) =
      (l.foldl (fun seen s => if seen.contains s then seen else seen ++ [s]) acc).filter test := by
  induction l generalizing acc with
  | nil => rfl
  | cons x l ih =>
    rw [List.foldl_cons, ← ih, List.filter_cons]
    cases hx : test x with
    | true =>
      have hmem : (acc.filter test).contains x = acc.contains x := by
        rw [Bool.eq_iff_iff, List.contains_iff_mem, List.contains_iff_mem, List.mem_filter,
          and_iff_left hx]
      rw [if_pos rfl, List.foldl_cons, hmem]
      split
      · rfl
      · rw [List.filter_append, List.filter_singleton, hx]
        rfl
    | false =>
      rw [if_neg Bool.false_ne_true]
      split
      · rfl
      · rw [List.filter_append, List.filter_singleton, hx]
        exact congrArg (List.foldl _ · _) (List.append_nil _).symm

end Targets

namespace IsFragment

variable (hf : g.IsFragment h s)

include hf

lemma target_ne_size (hr : r ∈ g.rules) : r.target ≠ g.symbols.size :=
  Nat.ne_of_lt (SymbolTable.lt_size_of_isNonterminal (hf.valid.target_nonterminal r hr))

/-- The start symbol comes first, then the symbols below the accepted one. -/
lemma targets_eq : h.targets = g.symbols.size :: g.targets.filter (g.reached s) := by
  obtain ⟨first, -, htarget, -, -, hrules⟩ := hf.rules
  have hbelow : (h.rules.map Rule.target) =
      g.symbols.size :: (g.rules.map Rule.target).filter (g.reached s) := by
    rw [hrules, List.map_cons, htarget, List.map_map, List.filter_map]
    rfl
  have hnot : g.symbols.size ∉ (g.rules.map Rule.target).filter (g.reached s) := by
    intro hmem
    obtain ⟨r, hr, heq⟩ := List.mem_map.mp (List.mem_filter.mp hmem).1
    exact hf.target_ne_size hr heq
  rw [targets, hbelow, List.foldl_cons, targets, ← filter_foldl_distinct]
  exact foldl_distinct_cons hnot

lemma rulesOf_start : ∃ first : Rule, h.rulesOf g.symbols.size = [first] ∧ first.id = 0 ∧
    first.target = g.symbols.size ∧ first.clause = [s] := by
  obtain ⟨first, hid, htarget, hclause, -, hrules⟩ := hf.rules
  refine ⟨first, ?_, hid, htarget, hclause⟩
  rw [rulesOf, hrules, List.filter_cons_of_pos (by rw [htarget, beq_self_eq_true])]
  refine congrArg (first :: ·) (List.filter_eq_nil_iff.mpr fun r' hr' => ?_)
  obtain ⟨r, hr, rfl⟩ := List.mem_map.mp hr'
  exact fun heq => hf.target_ne_size (mem_rulesBelow.mp hr).1 (beq_iff_eq.mp heq)

lemma rulesOf_eq (ht : g.Reaches s t) : h.rulesOf t = (g.rulesOf t).map (g.copyRule s) := by
  obtain ⟨first, -, htarget, -, -, hrules⟩ := hf.rules
  have hne : ¬ (first.target == t) = true := fun heq =>
    Nat.ne_of_lt (hf.lt_size_of_reaches ht) ((beq_iff_eq.mp heq).symm.trans htarget)
  rw [rulesOf, hrules, List.filter_cons, if_neg hne, List.filter_map, rulesBelow,
    List.filter_filter]
  refine congrArg (List.map _) (List.filter_congr fun r _ => ?_)
  rw [Bool.eq_iff_iff, Bool.and_eq_true, Function.comp_apply, copyRule]
  refine and_iff_left_of_imp fun heq => ?_
  rw [beq_iff_eq.mp heq]
  exact reached_iff.mpr ht

/-- The clause of the start rule is not empty: the accepted symbol is a non-terminal, not `ε`. -/
lemma symbols_of_clause (hclause : r.clause = [s]) : r.symbols = [s] := by
  have hne : (s == SymbolId.epsilon) = false := by
    rw [beq_eq_false_iff_ne]
    rintro rfl
    have hnonterminal := hf.isNonterminal_of_reaches .refl
    obtain ⟨rest, hrest⟩ := hf.valid.reserved
    rw [SymbolTable.isNonterminal, SymbolTable.kind?, SymbolTable.get?, ← hrest] at hnonterminal
    cases hnonterminal
  simp [Rule.symbols, Rule.isEmpty, hclause, hne]

/-- A clause is read alike in both grammars. -/
lemma production_copyRule (hr : r ∈ g.rules) :
    h.production (g.copyRule s r) = g.copyProduction s (g.production r) := by
  have hparts : r.symbols.map h.part = r.symbols.map g.part := by
    refine List.map_congr_left fun t ht => ?_
    rw [part, part, hf.isNonterminal_eq (Nat.ne_of_lt (hf.valid.symbol_lt_size hr ht))]
  rw [production, copyProduction, production]
  exact congrArg (fun rhs => (⟨r.target, rhs, some (g.copyOf s r.id)⟩ : Production)) hparts

/-- The productions of a fragment are `^ → start` and the copies of those that are kept. -/
lemma productions_eq : (h.productions g.symbols.size).list.toList =
    h.startProduction g.symbols.size ::
      ((g.productions s).list.toList.filter (g.kept s)).map (g.copyProduction s) := by
  have hblock : ∀ t, ∀ prod ∈ g.block t, g.kept s prod = g.reached s t := by
    intro t prod hprod
    obtain ⟨r, -, rfl, rfl⟩ := mem_block.mp hprod
    exact Bool.false_or _
  have hfilter : ∀ l : List SymbolId,
      (l.flatMap g.block).filter (g.kept s) = (l.filter (g.reached s)).flatMap g.block := by
    intro l
    induction l with
    | nil => rfl
    | cons t l ih =>
      rw [List.flatMap_cons, List.filter_append, ih, List.filter_congr (hblock t), List.filter_cons]
      cases g.reached s t with
      | true => rw [List.filter_true, if_pos rfl, List.flatMap_cons]
      | false => rw [List.filter_false, if_neg Bool.false_ne_true, List.nil_append]
  have hcopies : ∀ t ∈ g.targets.filter (g.reached s),
      h.block t = (g.block t).map (g.copyProduction s) := by
    intro t ht
    rw [block, hf.rulesOf_eq (reached_iff.mp (List.mem_filter.mp ht).2), block, List.map_map,
      List.map_map]
    refine List.map_congr_left fun r hr => ?_
    exact hf.production_copyRule (mem_rulesOf.mp hr).1
  have hstart : h.block g.symbols.size = [g.copyProduction s (g.startProduction s)] := by
    obtain ⟨first, hfirst, hid, htarget, hclause⟩ := hf.rulesOf_start
    have hs := hf.lt_size_of_reaches .refl
    rw [block, hfirst, List.map_singleton, production, hid, htarget, hf.symbols_of_clause hclause,
      List.map_singleton,
      part, hf.isNonterminal_eq (Nat.ne_of_lt hs)]
    rfl
  rw [productions_list, productions_list, hf.targets_eq, List.flatMap_cons, hstart,
    List.filter_cons_of_pos (by rfl), hfilter, List.map_cons, List.map_flatMap]
  exact congrArg (fun l => _ :: _ :: l) (List.flatMap_congr hcopies)

lemma proper : (g.productions s).Proper s := hf.valid.proper_productions hf.accepts

lemma fragment_proper : (h.productions g.symbols.size).Proper g.symbols.size :=
  hf.fragment_valid.proper_productions hf.fragment_accepts

/-! ## Places of productions -/

omit hf in
lemma kept_of_reaches (hreaches : g.Reaches s prod.lhs) : g.kept s prod = true :=
  Bool.or_eq_true_iff.mpr (.inr (reached_iff.mpr hreaches))

lemma kept_start (hp : (g.productions s).get? 0 = some prod) : g.kept s prod = true := by
  rw [hf.proper.start, Option.some.injEq] at hp
  rw [← hp]
  rfl

omit hf in
lemma reaches_of_kept (hp : (g.productions s).get? p = some prod) (hkept : g.kept s prod = true)
    (h0 : p ≠ 0) : g.Reaches s prod.lhs := by
  obtain ⟨r, -, rfl⟩ := exists_rule_of_productions_get? hp h0
  exact reached_iff.mp ((Bool.or_eq_true_iff.mp hkept).resolve_left Bool.false_ne_true)

lemma get?_placeOf (hp : (g.productions s).get? p = some prod) (hkept : g.kept s prod = true) :
    (h.productions g.symbols.size).get? (g.placeOf s p) = some (g.copyProduction s prod) := by
  rw [Productions.get?, ← Array.getElem?_toList] at hp ⊢
  rw [hf.productions_eq, placeOf, List.getElem?_cons_succ, List.getElem?_map,
    getElem?_filter_countP hp hkept]
  rfl

/-- All productions of the fragment but the first stand in the place of one that is kept. -/
lemma exists_of_get? (hq : (h.productions g.symbols.size).get? q = some prod') (h0 : q ≠ 0) :
    ∃ p prod, (g.productions s).get? p = some prod ∧ g.kept s prod = true ∧ g.placeOf s p = q ∧
      g.copyProduction s prod = prod' := by
  obtain ⟨q, rfl⟩ := Nat.exists_eq_succ_of_ne_zero h0
  rw [Productions.get?, ← Array.getElem?_toList, hf.productions_eq, List.getElem?_cons_succ,
    List.getElem?_map, Option.map_eq_some_iff] at hq
  obtain ⟨prod, hprod, rfl⟩ := hq
  obtain ⟨p, hp, hplace⟩ := exists_of_getElem?_filter hprod
  refine ⟨p, prod, ?_, (List.mem_filter.mp (List.mem_of_getElem? hprod)).2,
    congrArg (· + 1) hplace, rfl⟩
  rw [Productions.get?, ← Array.getElem?_toList]
  exact hp

omit hf in
lemma placeOf_lt (hp : (g.productions s).get? p = some prod) (hkept : g.kept s prod = true)
    (hlt : p < q) : g.placeOf s p < g.placeOf s q := by
  rw [Productions.get?, ← Array.getElem?_toList] at hp
  exact Nat.succ_lt_succ (countP_take_lt hp hkept hlt)

/-- The first production of the fragment is of no symbol that the grammar knows. -/
lemma ne_zero_of_reaches (hq : (h.productions g.symbols.size).get? q = some prod')
    (hreaches : g.Reaches s prod'.lhs) : q ≠ 0 := by
  rintro rfl
  rw [hf.fragment_proper.start, Option.some.injEq] at hq
  have hlt := hf.lt_size_of_reaches hreaches
  have hlhs : prod'.lhs = h.symbols.size := by rw [← hq]; rfl
  rw [hlhs, hf.size_eq] at hlt
  exact Nat.not_succ_lt_self hlt

/-- The productions of a symbol keep their order. -/
lemma range_eq (ht : g.Reaches s t) : (h.productions g.symbols.size).range t =
    ((g.productions s).range t).map (g.placeOf s) := by
  have hkept : ∀ p ∈ (g.productions s).range t, ∃ prod, (g.productions s).get? p = some prod ∧
      prod.lhs = t ∧ g.kept s prod = true := by
    intro p hp
    obtain ⟨prod, hprod, rfl⟩ := hf.proper.mem_range.mp hp
    exact ⟨prod, hprod, rfl, kept_of_reaches ht⟩
  refine List.Pairwise.eq_of_mem_iff (r := (· < ·)) List.pairwise_lt_range' ?_ fun q => ?_
  · have hsorted : ((g.productions s).range t).Pairwise (· < ·) := List.pairwise_lt_range'
    refine List.pairwise_map.mpr (hsorted.imp_of_mem fun hp _ hlt => ?_)
    obtain ⟨prod, hprod, -, hkeep⟩ := hkept _ hp
    exact placeOf_lt hprod hkeep hlt
  · rw [List.mem_map, hf.fragment_proper.mem_range]
    constructor
    · rintro ⟨prod', hq, rfl⟩
      obtain ⟨p, prod, hprod, -, hplace, rfl⟩ :=
        hf.exists_of_get? hq (hf.ne_zero_of_reaches hq ht)
      exact ⟨p, hf.proper.mem_range.mpr ⟨prod, hprod, rfl⟩, hplace⟩
    · rintro ⟨p, hp, rfl⟩
      obtain ⟨prod, hprod, rfl, hkeep⟩ := hkept p hp
      exact ⟨_, hf.get?_placeOf hprod hkeep, rfl⟩

/-- The start symbol has one production. -/
lemma range_start : (h.productions g.symbols.size).range g.symbols.size = [1] := by
  refine List.Pairwise.eq_of_mem_iff (r := (· < ·)) List.pairwise_lt_range'
    (List.pairwise_singleton _ _) fun q => ?_
  rw [hf.fragment_proper.mem_range, List.mem_singleton]
  constructor
  · rintro ⟨prod', hq, hlhs⟩
    have h0 : q ≠ 0 := by
      rintro rfl
      rw [hf.fragment_proper.start, Option.some.injEq] at hq
      rw [← hq] at hlhs
      have hsize : h.symbols.size = g.symbols.size := hlhs
      exact Nat.succ_ne_self _ (hf.size_eq.symm.trans hsize)
    obtain ⟨p, prod, hprod, hkept, rfl, rfl⟩ := hf.exists_of_get? hq h0
    by_cases hp : p = 0
    · rw [hp]
      rfl
    · have hreaches := reaches_of_kept hprod hkept hp
      exact absurd hlhs (Nat.ne_of_lt (hf.lt_size_of_reaches hreaches))
  · rintro rfl
    have hstart := hf.proper.start
    exact ⟨_, hf.get?_placeOf hstart (hf.kept_start hstart), rfl⟩

/-! ## Strings below the accepted symbol -/

end IsFragment

/-- The non-terminals of the string are reached from the symbol. -/
def IsBelow (g : Grammar) (s : SymbolId) (α : List Part) : Prop :=
  ∀ t, .nonterminal t ∈ α → g.Reaches s t

namespace IsFragment

variable (hf : g.IsFragment h s)

include hf

/-- The right-hand sides that are kept are below the accepted symbol. -/
lemma below_rhs (hp : (g.productions s).get? p = some prod) (hkept : g.kept s prod = true) :
    g.IsBelow s prod.rhs := by
  intro t ht
  by_cases h0 : p = 0
  · subst h0
    rw [hf.proper.start, Option.some.injEq] at hp
    subst hp
    cases List.mem_singleton.mp ht
    exact .refl
  · have hreaches := reaches_of_kept hp hkept h0
    obtain ⟨r, hr, rfl⟩ := exists_rule_of_productions_get? hp h0
    obtain ⟨t', ht', hpart⟩ := List.mem_map.mp ht
    have hsymbol : t' = t := by rw [← g.part_symbol t', hpart]; rfl
    subst hsymbol
    exact hreaches.tail ⟨r, hr, rfl, Rule.mem_clause ht', isNonterminal_of_part_eq hpart⟩

lemma rewrites_iff (hα : g.IsBelow s α) : (h.productions g.symbols.size).Rewrites α β ↔
    (g.productions s).Rewrites α β := by
  constructor
  · rintro ⟨before, after, hq⟩
    rename_i q prod'
    have hreaches : g.Reaches s prod'.lhs := hα _ (by simp)
    obtain ⟨p, prod, hprod, -, -, rfl⟩ :=
      hf.exists_of_get? hq (hf.ne_zero_of_reaches hq hreaches)
    have hstep := Productions.Rewrites.expand before after hprod
    exact hstep
  · rintro ⟨before, after, hp⟩
    rename_i p prod
    have hreaches : g.Reaches s prod.lhs := hα _ (by simp)
    have hstep := Productions.Rewrites.expand before after
      (hf.get?_placeOf hp (kept_of_reaches hreaches))
    exact hstep

lemma below_of_rewrites (hα : g.IsBelow s α) (hstep : (g.productions s).Rewrites α β) :
    g.IsBelow s β := by
  obtain ⟨before, after, hp⟩ := hstep
  rename_i p prod
  have hrhs := hf.below_rhs hp (kept_of_reaches (hα _ (by simp)))
  intro t ht
  rcases List.mem_append.mp ht with ht | ht
  · rcases List.mem_append.mp ht with ht | ht
    · exact hα t (by simp [ht])
    · exact hrhs t ht
  · exact hα t (by simp [ht])

lemma derives_iff (hα : g.IsBelow s α) : (h.productions g.symbols.size).Derives α β ↔
    (g.productions s).Derives α β := by
  have hboth : ∀ {β}, (g.productions s).Derives α β →
      (h.productions g.symbols.size).Derives α β ∧ g.IsBelow s β := by
    intro β hβ
    induction hβ with
    | refl => exact ⟨.refl, hα⟩
    | tail _ hstep ih =>
      exact ⟨ih.1.tail ((hf.rewrites_iff ih.2).mpr hstep), hf.below_of_rewrites ih.2 hstep⟩
  refine ⟨fun hβ => ?_, fun hβ => (hboth hβ).1⟩
  induction hβ with
  | refl => exact .refl
  | tail _ hstep ih => exact ih.tail ((hf.rewrites_iff (hboth ih).2).mp hstep)

/-- The same terminals can come ahead. -/
lemma ahead_eq (hβ : g.IsBelow s β) (hsymbols : ∀ part ∈ β, part.symbol < g.symbols.size)
    (set : TerminalSet) : (FirstSets.compute (h.productions g.symbols.size)).ahead β set =
      (FirstSets.compute (g.productions s)).ahead β set := by
  have hsymbols' : ∀ part ∈ β, part.symbol < h.symbols.size := fun part hpart =>
    Nat.lt_trans (hsymbols part hpart) (hf.size_eq ▸ Nat.lt_succ_self _)
  refine TerminalSet.ext_mem fun t => ?_
  rw [FirstSets.mem_ahead, FirstSets.mem_ahead,
    FirstSets.mem_compute hf.proper hsymbols, FirstSets.nullable_compute hf.proper hsymbols,
    FirstSets.mem_compute hf.fragment_proper hsymbols',
    FirstSets.nullable_compute hf.fragment_proper hsymbols', Productions.Nullable,
    Productions.Nullable, hf.derives_iff hβ, Productions.Begins, Productions.Begins,
    exists_congr fun γ => hf.derives_iff hβ]

end IsFragment

end Grammar

end ShiftReduce
