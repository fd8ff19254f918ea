import ShiftReduce.Proofs.Grammar.Operation
/-!
# The rules of a fragment

What the fragment for a symbol is depends on how many rules define the symbol. Without one there is
no fragment. A sole rule moves to the front of the grammar, which is then the fragment. Otherwise
the fragment is a grammar of its own: behind a rule that derives the symbol from a fresh
non-terminal it has a copy of every rule whose target can be reached from the symbol, in the order
they had, and of no other; and it is complete if everything reachable from the symbol is defined.

The search for these rules keeps a list of symbols still to be visited. That it neither loses nor
repeats a symbol is in the theory of what is visited; here it is put together with the numbers that
rules have before and after.

Main statement: `Grammar.Valid.fragment_exact`.
-/

namespace ShiftReduce

namespace Grammar

variable {g h : Grammar} {s t : SymbolId} {id : RuleId} {r : Rule}

/-! ## The rules that define a symbol -/

/-- The rule of this number is the only one that defines the symbol. -/
structure SoleRule (g : Grammar) (s : SymbolId) (id : RuleId) : Prop where
  defines : ∃ r, g.rules[id]? = some r ∧ r.target = s
  alone : ∀ (i : RuleId) (r : Rule), g.rules[i]? = some r → r.target = s → i = id

lemma rulesOf_eq_nil_iff : g.rulesOf s = [] ↔ ∀ r ∈ g.rules, r.target ≠ s := by
  simp only [rulesOf, List.filter_eq_nil_iff, beq_iff_eq, ne_eq]

lemma SoleRule.exists_rulesOf (hsole : g.SoleRule s id) :
    ∃ top, g.rules[id]? = some top ∧ g.rulesOf s = [top] := by
  obtain ⟨r, hr, rfl⟩ := hsole.defines
  have hlength : (g.rulesOf r.target).length = 1 :=
    (length_rulesOf_eq_one_iff hr).mpr fun i r' hr' => hsole.alone i r' hr'
  obtain ⟨top, htop⟩ := List.length_eq_one_iff.mp hlength
  have hmem : r ∈ g.rulesOf r.target :=
    mem_rulesOf.mpr ⟨List.mem_of_getElem? hr, rfl⟩
  rw [htop] at hmem
  obtain rfl := List.mem_singleton.mp hmem
  exact ⟨r, hr, htop⟩

lemma exists_soleRule (hone : g.rulesOf s = [r]) : ∃ id, g.SoleRule s id := by
  have hmem : r ∈ g.rulesOf s := hone ▸ List.mem_singleton_self r
  obtain ⟨hr, rfl⟩ := mem_rulesOf.mp hmem
  obtain ⟨id, hid⟩ := List.mem_iff_getElem?.mp hr
  exact ⟨id, ⟨r, hid, rfl⟩,
    (length_rulesOf_eq_one_iff hid).mp (by rw [hone, List.length_singleton])⟩

/-! ## Levels inherited first -/

lemma rulesOf_inheritLevels (g : Grammar) (s : SymbolId) :
    g.inheritLevels.rulesOf s = (g.rulesOf s).map g.inherited :=
  rulesOf_mapRules (keepsShape_inherited g) g s

lemma reaches_inheritLevels : g.inheritLevels.Reaches s t ↔ g.Reaches s t := by
  rw [← mem_reach_iff, ← mem_reach_iff]
  exact iff_of_eq (congrArg (fun visits => t ∈ visits.map Visit.symbol)
    (reach_mapRules (keepsShape_inherited g) g s))

lemma exists_mem_inheritLevels :
    (∃ r ∈ g.inheritLevels.rules, r.target = s) ↔ ∃ r ∈ g.rules, r.target = s := by
  simp only [inheritLevels, List.mem_map, exists_exists_and_eq_and]

/-! ## A grammar of its own -/

/-- The last grammar is a fragment of its own for the symbol: the first is the grammar that it was
asked of, and the second that grammar afterwards. -/
structure TakesBelow (g g' h : Grammar) (s : SymbolId) : Prop where
  symbols : ∃ fresh, h.symbols.entries = g.symbols.entries ++ [⟨.nonterminal, fresh⟩] ∧
    g.symbols.find? .nonterminal fresh = none
  target : h.target = some g.symbols.size
  levels : h.levels = g.levels
  rules : ∃ start copies, h.rules = renumber (start :: copies) ∧ start.target = g.symbols.size ∧
    start.clause = [s] ∧ copies.Sublist g'.rules ∧ copies.Nodup ∧
    ∀ r, r ∈ copies ↔ r ∈ g'.rules ∧ g.Reaches s r.target
  validate_iff : h.validate = .ok () ↔ ∀ t, g.Reaches s t → ∃ r ∈ g.rules, r.target = t

/-- Only fields other than the number are copied. -/
lemma mem_renumber {rules : List Rule} (hr : r ∈ renumber rules) :
    ∃ r₀ ∈ rules, r = { r₀ with id := r.id } := by
  obtain ⟨i, hi⟩ := List.mem_iff_getElem?.mp hr
  rw [renumber, List.getElem?_mapIdx, Option.map_eq_some_iff] at hi
  obtain ⟨r₀, hr₀, rfl⟩ := hi
  exact ⟨r₀, List.mem_of_getElem? hr₀, rfl⟩

lemma exists_mem_renumber {rules : List Rule} (hr : r ∈ rules) :
    ∃ r' ∈ renumber rules, r'.target = r.target ∧ r'.clause = r.clause := by
  obtain ⟨i, hi⟩ := List.mem_iff_getElem?.mp hr
  refine ⟨{ r with id := i }, List.mem_of_getElem? (i := i) ?_, rfl, rfl⟩
  rw [renumber, List.getElem?_mapIdx, hi]
  rfl

lemma Valid.rootedBelow_extract (hg : g.Valid) (hs : g.symbols.isNonterminal s = true) :
    g.RootedBelow (g.extract s) g.symbols.size s := by
  obtain ⟨fresh, hfresh⟩ := g.symbols_extract s
  have hkind : ∀ t < g.symbols.size,
      (g.extract s).symbols.isNonterminal t = g.symbols.isNonterminal t := by
    intro t ht
    rw [SymbolTable.isNonterminal, SymbolTable.kind?, SymbolTable.get?, hfresh,
      List.getElem?_append_left ht]
    rfl
  have hbelow : ∀ t, g.Reaches s t → t < g.symbols.size := by
    intro t ht
    cases ht with
    | refl => exact SymbolTable.lt_size_of_isNonterminal hs
    | tail _ hmentions =>
      obtain ⟨r, -, -, -, hnonterminal⟩ := hmentions
      exact SymbolTable.lt_size_of_isNonterminal hnonterminal
  refine ⟨?_, fun r hr t ht => hkind t (of_decide_eq_true (hg.clause_known r hr t ht)),
    fun t ht => Nat.ne_of_lt (hbelow t ht), ?_, fun r hr hreaches => ?_, fun r' hr' => ?_⟩
  · rw [hkind s (SymbolTable.lt_size_of_isNonterminal hs), hs]
  · rw [rules_extract]
    exact exists_mem_renumber List.mem_cons_self
  · rw [rules_extract]
    exact exists_mem_renumber (List.mem_cons_of_mem _ (mem_rulesBelow.mpr ⟨hr, hreaches⟩))
  · rw [rules_extract] at hr'
    obtain ⟨r, hr, heq⟩ := mem_renumber hr'
    rw [heq]
    rcases List.mem_cons.mp hr with rfl | hr
    · exact .inl ⟨rfl, rfl⟩
    · obtain ⟨hr, hreaches⟩ := mem_rulesBelow.mp hr
      exact .inr ⟨r, hr, hreaches, rfl, rfl⟩

/-- In a valid grammar no rule is there twice, since the numbers differ. -/
lemma Valid.nodup_rules (hg : g.Valid) : g.rules.Nodup :=
  List.Nodup.of_map Rule.id (hg.ids ▸ List.nodup_range)

lemma Valid.takesBelow_extract (hg : g.Valid) (hs : g.symbols.isNonterminal s = true) :
    g.TakesBelow g.inheritLevels (g.inheritLevels.extract s) s where
  symbols := by
    refine ⟨g.symbols.freshName ("<" ++ g.symbols.name s ++ ">"), ?_,
      g.symbols.find?_freshName _⟩
    exact congrArg (fun x => SymbolTable.entries x.2) (SymbolTable.internFresh_eq _ _)
  target := target_extract _ _
  levels := rfl
  rules := by
    refine ⟨_, g.inheritLevels.rulesBelow s, rules_extract _ _, rfl, rfl, List.filter_sublist,
      hg.inheritLevels.nodup_rules.filter _, fun r => ?_⟩
    rw [mem_rulesBelow, reaches_inheritLevels]
  validate_iff := by
    rw [validate_eq_ok_iff (target_extract _ _),
      (hg.inheritLevels.rootedBelow_extract hs).defined_iff]
    simp only [reaches_inheritLevels, exists_mem_inheritLevels]

/-! ## The fragment for a symbol -/

lemma fragment_of_undefined (hnone : ∀ r ∈ g.rules, r.target ≠ s) :
    g.fragment s = (g.inheritLevels, .error (.undefined (g.symbols.name s) none)) := by
  rw [fragment]
  simp only [rulesOf_inheritLevels, rulesOf_eq_nil_iff.mpr hnone, List.map_nil]
  rfl

lemma Valid.fragment_of_soleRule (hg : g.Valid) (hsole : g.SoleRule s id) :
    (g.fragment s).2 = .ok .whole ∧ g.inheritLevels.MovedToFront (g.fragment s).1 id := by
  obtain ⟨top, htop, hone⟩ := hsole.exists_rulesOf
  have htop' : g.inheritLevels.rules[id]? = some (g.inherited top) := by
    rw [Grammar.inheritLevels, List.getElem?_map, htop]
    rfl
  have haccept : ∃ g', g.inheritLevels.acceptRule id = .ok g' := by
    refine exists_acceptRule_iff.mpr ⟨_, htop', (length_rulesOf_eq_one_iff htop').mp ?_⟩
    have htarget : top.target = s := by
      obtain ⟨r, hr, rfl⟩ := hsole.defines
      rw [Option.some.inj (htop.symm.trans hr)]
    rw [show (g.inherited top).target = s from htarget, rulesOf_inheritLevels, hone]
    rfl
  obtain ⟨g', hg'⟩ := haccept
  have hfragment : g.fragment s = (g', .ok .whole) := by
    rw [Grammar.fragment]
    simp only [rulesOf_inheritLevels, hone, List.map_singleton, hg.inheritLevels.rule_id htop', hg']
  rw [hfragment]
  exact ⟨rfl, movedToFront_of_acceptRule hg'⟩

lemma fragment_of_shared (hdefined : ∃ r ∈ g.rules, r.target = s) (hno : ∀ id, ¬ g.SoleRule s id) :
    g.fragment s = (g.inheritLevels, .ok (.part (g.inheritLevels.extract s))) := by
  rw [fragment]
  simp only [rulesOf_inheritLevels]
  rcases hrules : g.rulesOf s with _ | ⟨r, _ | ⟨r', rest⟩⟩
  · obtain ⟨r, hr, htarget⟩ := hdefined
    exact absurd htarget (rulesOf_eq_nil_iff.mp hrules r hr)
  · obtain ⟨id, hsole⟩ := exists_soleRule hrules
    exact absurd hsole (hno id)
  · rfl

/-- There is no fragment for a symbol if and only if no rule defines it; the error names the symbol.
If a sole rule defines it the fragment is the grammar itself, with that rule moved to the front. If
several do, the fragment takes copies of exactly the rules below the symbol, and of the grammar
nothing is changed but the levels inherited. -/
theorem Valid.fragment_exact (hg : g.Valid) (s : SymbolId) :
    ((∃ e, (g.fragment s).2 = .error e) ↔ ∀ r ∈ g.rules, r.target ≠ s) ∧
    (∀ e, (g.fragment s).2 = .error e → e = .undefined (g.symbols.name s) none) ∧
    (∀ id, g.SoleRule s id → (g.fragment s).2 = .ok .whole ∧
      g.inheritLevels.MovedToFront (g.fragment s).1 id) ∧
    ((∃ r ∈ g.rules, r.target = s) → (∀ id, ¬ g.SoleRule s id) →
      (g.fragment s).1 = g.inheritLevels ∧
        ∃ h, (g.fragment s).2 = .ok (.part h) ∧ g.TakesBelow g.inheritLevels h s) := by
  have hshared : (∃ r ∈ g.rules, r.target = s) → (∀ id, ¬ g.SoleRule s id) →
      (g.fragment s).1 = g.inheritLevels ∧
        ∃ h, (g.fragment s).2 = .ok (.part h) ∧ g.TakesBelow g.inheritLevels h s := by
    intro hdefined hno
    have hs : g.symbols.isNonterminal s = true := by
      obtain ⟨r, hr, rfl⟩ := hdefined
      exact hg.target_nonterminal r hr
    rw [fragment_of_shared hdefined hno]
    exact ⟨rfl, _, rfl, hg.takesBelow_extract hs⟩
  have hundefined : ∀ e, (g.fragment s).2 = .error e → ∀ r ∈ g.rules, r.target ≠ s := by
    intro e he r hr htarget
    by_cases hsole : ∃ id, g.SoleRule s id
    · obtain ⟨id, hsole⟩ := hsole
      rw [(hg.fragment_of_soleRule hsole).1] at he
      cases he
    · obtain ⟨-, h, hpart, -⟩ := hshared ⟨r, hr, htarget⟩ (not_exists.mp hsole)
      rw [hpart] at he
      cases he
  refine ⟨⟨fun ⟨e, he⟩ => hundefined e he, fun hnone => ?_⟩, fun e he => ?_,
    fun id => hg.fragment_of_soleRule, hshared⟩
  · exact ⟨_, by rw [fragment_of_undefined hnone]⟩
  · rw [fragment_of_undefined (hundefined e he)] at he
    exact (Except.error.inj he).symm

/-- Statements `S → E ;`, expressions `E → E + A | A` with `A → x`, and `U → ; ;`, which nothing
mentions. -/
def statements : Grammar where
  name := none
  symbols := ⟨SymbolTable.initial.entries ++
    [⟨.nonterminal, "S"⟩, ⟨.nonterminal, "E"⟩, ⟨.nonterminal, "A"⟩, ⟨.nonterminal, "U"⟩,
      ⟨.terminal, "x"⟩, ⟨.terminal, "+"⟩, ⟨.terminal, ";"⟩]⟩
  rules := [.plain 0 2 [3, 8], .plain 1 5 [8, 8], .plain 2 3 [3, 7, 4], .plain 3 3 [4],
    .plain 4 4 [6]]
  levels := []
  target := some 2

lemma valid_statements : statements.Valid :=
  ⟨⟨_, rfl⟩, rfl, by decide, by decide, by decide, rfl⟩

/-- The sole rule of `A` moves to the front, and the fragment for `E` has the rules of `E` and of
`A`. -/
theorem fragment_exact_statements :
    statements.Valid ∧ statements.SoleRule 4 4 ∧ (statements.fragment 4).2 = .ok .whole ∧
    statements.inheritLevels.MovedToFront (statements.fragment 4).1 4 ∧
    ∃ h, (statements.fragment 3).2 = .ok (.part h) ∧
      statements.TakesBelow statements.inheritLevels h 3 ∧
      h.rules.map (fun r => (r.target, r.clause)) =
        [(9, [3]), (3, [3, 7, 4]), (3, [4]), (4, [6])] := by
  have hsole : statements.SoleRule 4 4 := by
    refine ⟨⟨_, rfl, rfl⟩, fun i r hr htarget => ?_⟩
    match i, hr with
    | 0, hr | 1, hr | 2, hr | 3, hr => cases hr; cases htarget
    | 4, _ => rfl
    | _ + 5, hr => cases hr
  have hno : ∀ id, ¬ statements.SoleRule 3 id := fun id hsole' =>
    absurd ((hsole'.alone 2 _ rfl rfl).trans (hsole'.alone 3 _ rfl rfl).symm) (by decide)
  obtain ⟨-, -, hwhole, -⟩ := valid_statements.fragment_exact 4
  obtain ⟨-, -, -, hpart⟩ := valid_statements.fragment_exact 3
  obtain ⟨-, h, hh, hbelow⟩ := hpart ⟨_, List.mem_of_getElem? (i := 3) rfl, rfl⟩ hno
  refine ⟨valid_statements, hsole, (hwhole 4 hsole).1, (hwhole 4 hsole).2, h, hh, hbelow, ?_⟩
  obtain rfl := fragment_part hh
  rfl

end Grammar

end ShiftReduce
