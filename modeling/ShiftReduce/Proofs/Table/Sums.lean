import ShiftReduce.Proofs.Table.Operators
import ShiftReduce.Proofs.Table.Reading
/-!
# More operators than there are keys

The rules of `n` operators of one level, with the rule of the numbers behind them. If there are so
many operators that the production of that rule begins with key 0, the construction takes it for
`^ → . E` wherever an operand may come next. So no item has a number after its dot, and no state
shifts one.

Main statement: `Grammar.sums_action?_number`.
-/

namespace ShiftReduce

/-- Operators of one level that group to the left. -/
def Operators.additive (n : Nat) : Operators where
  expression := 2
  number := 3
  symbols := List.range' 4 n
  level := fun _ => 1
  associativity := fun _ => .left
  nodup := by
    refine List.nodup_cons.mpr ⟨fun h => ?_, List.nodup_range'⟩
    have := List.left_le_of_mem_range' h
    omega
  sided := fun _ _ => .inl rfl
  agree := fun _ _ _ _ _ => rfl

namespace Grammar

/-- The rules of the operators, and behind them that of the numbers. -/
def sums (n : Nat) : Grammar where
  name := none
  symbols := ⟨SymbolTable.initial.entries ++ [⟨.nonterminal, "E"⟩, ⟨.terminal, "num"⟩] ++
    (List.range' 4 n).map fun op => ⟨.terminal, toString op⟩⟩
  rules := (List.range n).map (fun i => { Rule.plain i 2 [2, i + 4, 2] with
    arbitration := .reduce }) ++ [.plain n 2 [3]]
  levels := (List.range' 4 n).map fun op => (op, 1)
  target := some 2

variable {n : Nat}

lemma forall_mem_sums {P : Rule → Prop} (hop : ∀ i < n, P { Rule.plain i 2 [2, i + 4, 2] with
    arbitration := .reduce }) (hnumber : P (.plain n 2 [3])) : ∀ r ∈ (sums n).rules, P r := by
  intro r hr
  rcases List.mem_append.mp hr with hr | hr
  · obtain ⟨i, hi, rfl⟩ := List.mem_map.mp hr
    exact hop i (List.mem_range.mp hi)
  · rw [List.mem_singleton.mp hr]
    exact hnumber

lemma sums_isTerminal {s : SymbolId} (hs : s ∈ 3 :: List.range' 4 n) :
    (sums n).symbols.isTerminal s = true := by
  rcases List.mem_cons.mp hs with rfl | hs
  · rfl
  · obtain ⟨i, hi, rfl⟩ := List.mem_range'.mp hs
    have hentry : (sums n).symbols.get? (4 + 1 * i) = some ⟨.terminal, toString (4 + i)⟩ := by
      rw [SymbolTable.get?, sums, List.getElem?_append_right (by simp [SymbolTable.initial])]
      simp [SymbolTable.initial, hi]
    rw [SymbolTable.isTerminal, SymbolTable.kind?, hentry]
    rfl

lemma valid_sums : (sums n).Valid where
  reserved := ⟨_, (List.append_assoc _ _ _).symm⟩
  ids := by
    simp only [sums, List.map_append, List.map_map, List.length_append, List.length_map,
      List.length_range, List.length_singleton, List.range_succ]
    congr 1
    exact List.map_id _
  target_nonterminal := forall_mem_sums (fun _ _ => rfl) rfl
  clause_known := by
    have hsize : (sums n).symbols.size = n + 4 := by
      simp [sums, SymbolTable.size, SymbolTable.initial]
    refine forall_mem_sums (fun i hi => ?_) ?_
    · simp [Rule.plain, SymbolTable.contains, hsize, hi]
    · simp [Rule.plain, SymbolTable.contains, hsize]
  clause_ne_nil := forall_mem_sums (fun _ _ => List.cons_ne_nil _ _) (List.cons_ne_nil _ _)
  accepts_first := by
    cases n with
    | zero => rfl
    | succ n => simp [sums, List.range_succ_eq_map, Rule.plain]

/-- No two symbols have one name. -/
lemma nodup_sums (n : Nat) : (sums n).symbols.entries.Nodup := by
  have hdigits : ∀ op : Nat, ∀ c ∈ (toString op).toList, c.isDigit = true := by
    intro op c hc
    rw [Nat.toString_eq_repr, Nat.toList_repr] at hc
    exact Nat.isDigit_of_mem_toDigits (by decide) (by decide) hc
  have hinj : Function.Injective fun op : Nat => Symbol.mk .terminal (toString op) := by
    intro op op' h
    have hlist := congrArg (fun symbol => symbol.name.toList) h
    simp only [Nat.toString_eq_repr, Nat.toList_repr] at hlist
    rw [← Nat.ofDigitChars_toDigits (b := 10) (n := op) (by decide) (by decide), hlist,
      Nat.ofDigitChars_toDigits (by decide) (by decide)]
  rw [sums]
  refine List.nodup_append'.mpr ⟨by decide, .map hinj List.nodup_range', fun symbol h h' => ?_⟩
  obtain ⟨op, -, rfl⟩ := List.mem_map.mp h'
  have hname : ∀ symbol ∈ SymbolTable.initial.entries ++ [⟨.nonterminal, "E"⟩,
      ⟨.terminal, "num"⟩], symbol.name.toList.all Char.isDigit = false := by decide
  have hall := hname _ h
  rw [List.all_eq_true.mpr (hdigits op)] at hall
  cases hall

lemma rules_sums (n : Nat) : (Operators.additive n).Rules (sums n) where
  valid := valid_sums
  accepts := rfl
  terminal := by
    intro s hs
    refine ⟨sums_isTerminal hs, ?_⟩
    have hle : 3 ≤ s := by
      rcases List.mem_cons.mp hs with rfl | hs
      · exact Nat.le_refl _
      · exact Nat.le_of_succ_le (List.left_le_of_mem_range' hs)
    exact ⟨fun h => by rw [h] at hle; exact absurd hle (by decide),
      fun h => by rw [h] at hle; exact absurd hle (by decide)⟩
  clauses := by
    have hclauses : (sums n).rules.map Rule.clause =
        ((List.range' 4 n).map fun op => [2, op, 2]) ++ [[3]] := by
      simp [sums, Rule.plain, List.range'_eq_map_range, Nat.add_comm, Function.comp_def]
    rw [hclauses]
    exact List.perm_append_singleton _ _
  plain := forall_mem_sums (fun _ _ => ⟨rfl, rfl, rfl⟩) ⟨rfl, rfl, rfl⟩
  arbitration := by
    refine forall_mem_sums (fun _ _ _ _ => rfl) fun op h => ?_
    simp [Rule.plain] at h
  level := fun op hop => List.lookup_graph (fun _ => 1) hop

lemma sums_productions (n : Nat) : ((sums n).productions 2).list.toList =
    (sums n).startProduction 2 :: (sums n).rules.map (sums n).production := by
  have htargets : (sums n).targets = [2] := by
    refine List.perm_singleton.mp ((List.perm_ext_iff_of_nodup (nodup_targets _)
      (List.nodup_singleton 2)).mpr fun s => ?_)
    rw [mem_targets, List.mem_singleton]
    constructor
    · rintro ⟨r, hr, rfl⟩
      exact ((rules_sums n).plain r hr).1
    · rintro rfl
      exact ⟨.plain n 2 [3], List.mem_append_right _ (List.mem_singleton_self _), rfl⟩
  have hrules : (sums n).rulesOf 2 = (sums n).rules :=
    List.filter_eq_self.mpr fun r hr => beq_iff_eq.mpr ((rules_sums n).plain r hr).1
  rw [productions_list, htargets, List.flatMap_singleton, block, hrules]

/-- The productions of the operators come first. -/
lemma sums_get? {i : Nat} (hi : i < n) : ((sums n).productions 2).get? (i + 1) =
    some ⟨2, [.nonterminal 2, .terminal (i + 4), .nonterminal 2], some i⟩ := by
  have hrule : (sums n).rules[i]? =
      some { Rule.plain i 2 [2, i + 4, 2] with arbitration := .reduce } := by
    rw [sums, List.getElem?_append_left (by simpa using hi), List.getElem?_map,
      List.getElem?_range hi]
    rfl
  have hop : i + 4 ∈ (Operators.additive n).symbols :=
    List.mem_range'.mpr ⟨i, hi, by omega⟩
  have hrhs := (rules_sums n).rhs_operator (List.mem_of_getElem? hrule) hop rfl
  rw [Productions.get?, ← Array.getElem?_toList, sums_productions, List.getElem?_cons_succ,
    List.getElem?_map, hrule, Option.map_some]
  exact congrArg (fun rhs => some (Production.mk 2 rhs (some i))) hrhs

lemma sums_get?_start (n : Nat) :
    ((sums n).productions 2).get? 0 = some ⟨(sums n).symbols.size, [.nonterminal 2], none⟩ := by
  rw [Productions.get?, ← Array.getElem?_toList, sums_productions]
  rfl

lemma sums_stride (hn : n ≠ 0) : ((sums n).productions 2).stride = 4 := by
  have hge := Productions.length_lt_stride (sums_get? (Nat.pos_of_ne_zero hn))
  have hle : ∀ prod ∈ ((sums n).productions 2).list.toList, prod.rhs.length ≤ 3 := by
    rw [sums_productions]
    refine List.forall_mem_cons.mpr ⟨by simp [startProduction], fun prod hprod => ?_⟩
    obtain ⟨r, hr, rfl⟩ := List.mem_map.mp hprod
    rw [production, List.length_map, (rules_sums n).symbols_eq hr]
    rcases (rules_sums n).clause_cases hr with hclause | ⟨op, -, hclause⟩
    · simp [hclause]
    · simp [hclause]
  exact Nat.le_antisymm (Nat.succ_le_succ (foldl_max_le hle (Nat.zero_le 3))) hge

/-- If the keys of the operators fill the words, then no item has a number after its dot. -/
lemma sums_remaining (hn : (n + 1) * 4 = wordRange) {key : Nat} (hkey : key < wordRange) :
    .terminal 3 ∉ ((sums n).productions 2).basis.remaining key := by
  have hne : n ≠ 0 := by
    rintro rfl
    cases hn
  have hproduction : ((sums n).productions 2).basis.productionOf key < n + 1 := by
    rw [Basis.productionOf, Productions.basis, sums_stride hne]
    exact Nat.div_lt_of_lt_mul (by rwa [Nat.mul_comm, hn])
  have hrhs : .terminal 3 ∉ (((sums n).productions 2).basis.production key).rhs := by
    rw [Basis.production, Productions.basis_productions]
    cases hp : ((sums n).productions 2).basis.productionOf key with
    | zero => simp [sums_get?_start]
    | succ i =>
      rw [hp] at hproduction
      simp [sums_get? (Nat.lt_of_succ_lt_succ hproduction)]
  exact fun h => hrhs (List.mem_of_mem_drop h)

/-- So on a number nothing is called for but reductions. -/
lemma sums_action?_number (hn : (n + 1) * 4 = wordRange) {t : ActionTable}
    (ht : (sums n).inheritLevels.table = .ok t) {state : StateId} {a : Action}
    (ha : t.action? state 3 = some a) : a = .fail ∨ ∃ id, a = .reduce id := by
  obtain ⟨target, htarget, rfl⟩ := table_eq_ok ht
  cases htarget
  rw [productions_inheritLevels, Automaton.action?_table, Option.bind_eq_some_iff] at ha
  obtain ⟨st, hst, hrow⟩ := ha
  rcases Row.called_of_action (Option.join_eq_some_iff.mp hrow) with hfail | ⟨item, hitem, hcalls⟩
  · exact .inl hfail
  · cases hcalls with
    | shift hrest _ =>
      have hlt := Basis.key_lt_of_mem_items (List.mem_of_getElem? hst) hitem
      exact absurd (hrest ▸ List.mem_cons_self) (sums_remaining hn hlt)
    | reduce _ _ _ => exact .inr ⟨_, rfl⟩

end Grammar

end ShiftReduce
