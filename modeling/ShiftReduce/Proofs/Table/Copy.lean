import ShiftReduce.Proofs.Automaton.Scan
import ShiftReduce.Proofs.Table.Built
import ShiftReduce.Proofs.Table.Fragment
/-!
# The table of a fragment

The rows of a fragment hold the actions of the grammar under other numbers: a state comes one later,
a rule is its copy, and where the grammar accepts the fragment reduces by its first rule. Clashes
are resolved alike. A rule has the level and the arbitration of its copy, copies are in the order of
the rules, and the first rule, which comes before all of them, wins where accepting wins.

A column that the grammar does not have is empty but for one goto: from the start the state over the
start symbol is entered.

Main statement: `Grammar.IsFragment.table_copied`.
-/

namespace ShiftReduce

namespace Grammar

variable {g h : Grammar} {s c : SymbolId} {a b : Action} {cell : Option Action}

/-! ## Cells -/

/-- The action of the fragment in the place of one of the grammar. -/
def copyAction (g : Grammar) (s : SymbolId) : Action → Action
  | .shift dest => .shift (dest + 1)
  | .reduce rule => .reduce (g.copyOf s rule)
  | .accept => .reduce 0
  | .fail => .fail

/-- What a cell of the column can hold: at the end of input nothing is shifted, and only there is
accepted. No state leads back to the start, and no rule is reduced that is not below the symbol. -/
def Apt (g : Grammar) (s c : SymbolId) : Action → Prop
  | .shift dest => c ≠ SymbolId.eoi ∧ 0 < dest
  | .reduce rule => ∃ r, g.rule? rule = some r ∧ g.Reaches s r.target
  | .accept => c = SymbolId.eoi
  | .fail => c ≠ SymbolId.eoi

lemma Apt.copyOf_lt {rule other : RuleId} (h : g.Apt s c (.reduce rule)) (hlt : rule < other) :
    g.copyOf s rule < g.copyOf s other := by
  obtain ⟨r, hr, hreaches⟩ := h
  exact Grammar.copyOf_lt hr hreaches hlt

lemma Apt.copyOf_lt_iff {rule other : RuleId} (h : g.Apt s c (.reduce rule)) :
    g.copyOf s rule < g.copyOf s other ↔ rule < other := by
  refine ⟨fun hlt => ?_, h.copyOf_lt⟩
  by_contra hle
  exact absurd (g.copyOf_mono s (Nat.le_of_not_lt hle)) (Nat.not_le_of_lt hlt)

lemma Apt.copyAction_eq_iff (ha : g.Apt s c a) (hb : g.Apt s c b) :
    g.copyAction s a = g.copyAction s b ↔ a = b := by
  refine ⟨fun heq => ?_, congrArg _⟩
  cases a with
  | shift dest =>
    cases b with
    | shift dest' => rw [Nat.succ.inj (Action.shift.inj heq)]
    | reduce _ | accept | fail => cases heq
  | reduce rule =>
    cases b with
    | reduce rule' =>
      obtain ⟨r, hr, hreaches⟩ := ha
      obtain ⟨r', hr', hreaches'⟩ := hb
      rw [copyOf_inj hr hreaches hr' hreaches' (Action.reduce.inj heq)]
    | accept => exact absurd (Action.reduce.inj heq) (Nat.succ_ne_zero _)
    | shift _ | fail => cases heq
  | accept =>
    cases b with
    | accept => rfl
    | reduce rule => exact absurd (Action.reduce.inj heq).symm (Nat.succ_ne_zero _)
    | shift _ | fail => cases heq
  | fail =>
    cases b with
    | fail => rfl
    | shift _ | reduce _ | accept => cases heq

lemma copyAction_eq_fail_iff : g.copyAction s a = .fail ↔ a = .fail := by
  cases a <;> simp [copyAction]

lemma clashes_copy (hcell : ∀ a ∈ cell, g.Apt s c a) (hb : g.Apt s c b) :
    clashes (cell.map (g.copyAction s)) (g.copyAction s b) = clashes cell b := by
  cases cell with
  | none => rfl
  | some a =>
    rw [Option.map_some, clashes, clashes, Bool.eq_iff_iff, Bool.and_eq_true, Bool.and_eq_true,
      bne_iff_ne, bne_iff_ne, bne_iff_ne, bne_iff_ne, ne_eq, ne_eq, ne_eq, ne_eq,
      (hcell a rfl).copyAction_eq_iff hb, copyAction_eq_fail_iff]

lemma Apt.settle (ha : g.Apt s c a) (hb : g.Apt s c b) : g.Apt s c (g.settle c a b) := by
  have harbitrate : ∀ dest rule, g.Apt s c (.shift dest) → g.Apt s c (.reduce rule) →
      g.Apt s c (g.arbitrate c dest rule) := by
    intro dest rule hshift hreduce
    rcases g.arbitrate_mem c dest rule with heq | heq | heq
    · exact heq ▸ hshift
    · exact heq ▸ hreduce
    · exact heq ▸ hshift.1
  cases a with
  | shift dest =>
    cases b with
    | reduce rule => exact harbitrate dest rule ha hb
    | accept => exact hb
    | shift _ | fail => exact ha
  | reduce rule =>
    cases b with
    | shift dest => exact harbitrate dest rule hb ha
    | reduce rule' =>
      rw [Grammar.settle]
      rcases min_choice rule rule' with heq | heq
      · rwa [heq]
      · rwa [heq]
    | accept => exact hb
    | fail => exact ha
  | accept => cases b <;> exact ha
  | fail =>
    cases b with
    | accept => exact hb
    | shift _ | reduce _ | fail => exact ha

lemma Apt.offer (hcell : ∀ a ∈ cell, g.Apt s c a) (hb : g.Apt s c b)
    (h : g.offer c cell b = some a) : g.Apt s c a := by
  cases cell with
  | none => exact Option.some.inj h ▸ hb
  | some existing =>
    simp only [Grammar.offer] at h
    split at h
    · exact Option.some.inj h ▸ (hcell existing rfl).settle hb
    · exact hcell a (Option.some.inj h ▸ rfl)

namespace IsFragment

variable (hf : g.IsFragment h s)

include hf

lemma arbitrate_copy {rule : RuleId} (hrule : g.Apt s c (.reduce rule)) (dest : StateId) :
    h.arbitrate c (dest + 1) (g.copyOf s rule) = g.copyAction s (g.arbitrate c dest rule) := by
  obtain ⟨r, hr, hreaches⟩ := hrule
  have hlevel : h.level c = g.level c := by rw [level, level, level?, level?, hf.levels]
  have hcopy : (g.copyRule s r).level = r.level ∧ (g.copyRule s r).arbitration = r.arbitration :=
    ⟨rfl, rfl⟩
  simp only [arbitrate, hr, hf.rule?_copyOf hr hreaches, hlevel, Option.map_some, Option.getD_some,
    hcopy]
  split
  · rfl
  · split
    · rfl
    · cases r.arbitration <;> rfl

/-- Clashes are resolved alike. -/
lemma settle_copy (ha : g.Apt s c a) (hb : g.Apt s c b) :
    h.settle c (g.copyAction s a) (g.copyAction s b) = g.copyAction s (g.settle c a b) := by
  cases a with
  | shift dest =>
    cases b with
    | reduce rule => exact hf.arbitrate_copy hb dest
    | accept => exact absurd hb ha.1
    | shift _ | fail => rfl
  | reduce rule =>
    cases b with
    | shift dest => exact hf.arbitrate_copy ha dest
    | reduce rule' => exact congrArg Action.reduce (g.copyOf_mono s).map_min.symm
    | accept => exact congrArg Action.reduce (Nat.min_zero _)
    | fail => rfl
  | accept =>
    cases b with
    | shift dest => exact absurd ha hb.1
    | reduce rule => exact congrArg Action.reduce (Nat.zero_min _)
    | accept | fail => rfl
  | fail =>
    cases b with
    | accept => exact absurd hb ha
    | shift _ | reduce _ | fail => rfl

lemma offer_copy (hcell : ∀ a ∈ cell, g.Apt s c a) (hb : g.Apt s c b) :
    h.offer c (cell.map (g.copyAction s)) (g.copyAction s b) =
      (g.offer c cell b).map (g.copyAction s) := by
  have hclashes := clashes_copy hcell hb
  cases cell with
  | none => rfl
  | some a =>
    rw [Option.map_some] at hclashes ⊢
    simp only [Grammar.offer, hclashes]
    split
    · rw [hf.settle_copy (hcell a rfl) hb, Option.map_some]
    · rfl

end IsFragment

lemma offerFallback_copy {rule : RuleId} (hcell : ∀ a ∈ cell, g.Apt s SymbolId.epsilon a)
    (hrule : g.Apt s SymbolId.epsilon (.reduce rule)) :
    offerFallback (cell.map (g.copyAction s)) (g.copyOf s rule) =
      (offerFallback cell rule).map (g.copyAction s) := by
  cases cell with
  | none => rfl
  | some a =>
    cases a with
    | reduce other =>
      simp only [Option.map_some, copyAction, offerFallback, hrule.copyOf_lt_iff]
      split <;> rfl
    | accept => exact absurd (hcell _ rfl) (by decide : ¬ SymbolId.epsilon = SymbolId.eoi)
    | shift _ | fail => rfl

end Grammar

/-! ## What the items of the grammar call for -/

namespace Grammar.Builds

variable {g : Grammar} {s c : SymbolId} {t : ActionTable} {st : State} {item : Item} {a : Action}
  {part : Part} {dest : StateId} (hb : g.Builds s t) (hst : st ∈ (g.automatonOf s).states)

include hb hst

/-- No transition leads back to the start. -/
lemma target_pos (htarget : st.target? part = some dest) : 0 < dest := by
  obtain ⟨st', hst', ⟨i, hi⟩, hset⟩ := (hb.isLalr.goto st hst part dest).mp htarget
  refine Nat.pos_of_ne_zero ?_
  rintro rfl
  obtain ⟨st₀, hst₀, hstart⟩ := hb.isLalr.start
  rw [hst', Option.some.injEq] at hst₀
  have hi₀ : i = Dotted.start := by
    rw [← hset, hst₀, hstart] at hi
    exact hi
  obtain ⟨j, -, β, -, rfl⟩ := hi
  exact absurd (congrArg Dotted.dot hi₀) (Nat.succ_ne_zero _)

omit hst in
/-- A terminal after a dot is one of a clause. -/
lemma exists_clause_of_rest {β : List Part}
    (hrest : (g.productions s).rest ((g.productions s).basis.dotted item.key) = .terminal c :: β) :
    ∃ r ∈ g.rules, c ∈ r.clause := by
  obtain ⟨prod, hp, hpart, -⟩ := Productions.exists_production_of_rest hrest
  have hmem := List.mem_of_getElem? hpart
  by_cases h0 : ((g.productions s).basis.dotted item.key).production = 0
  · rw [h0, hb.proper.start, Option.some.injEq] at hp
    rw [← hp] at hmem
    cases List.mem_singleton.mp hmem
  · obtain ⟨r, hr, rfl⟩ := exists_rule_of_productions_get? hp h0
    obtain ⟨t, ht, hpart⟩ := List.mem_map.mp hmem
    exact ⟨r, hr, eq_of_part_eq_terminal hpart ▸ Rule.mem_clause ht⟩

/-- The actions that are called for in the states of the grammar are apt. -/
lemma apt_of_calls (heoi : ∀ r ∈ g.rules, SymbolId.eoi ∉ r.clause)
    (hitem : item ∈ st.items (g.productions s).basis)
    (hkey : item.key ∈ (g.productions s).keptKeys {prod | g.kept s prod = true} 0)
    (hcalls : item.Calls (g.productions s).basis st c a) : g.Apt s c a ∧ c < g.symbols.size := by
  have hkept : ∀ rule, ((g.productions s).basis.production item.key).rule = some rule →
      g.Apt s c (.reduce rule) := by
    intro rule hrule
    obtain ⟨⟨prod, hp, hkept, -⟩, -⟩ := hkey
    rw [Productions.production_eq hp] at hrule
    obtain ⟨r, hr, rfl, hne⟩ := hb.exists_rule hp hrule
    exact ⟨r, hr, IsFragment.reaches_of_kept hp hkept hne⟩
  cases hcalls with
  | shift hrest htarget =>
    rw [Productions.remaining_eq_rest] at hrest
    obtain ⟨r, hr, hc⟩ := hb.exists_clause_of_rest hrest
    refine ⟨⟨?_, hb.target_pos hst htarget⟩, (hb.proper.symbol_lt_of_rest hrest).1⟩
    rintro rfl
    exact heoi r hr hc
  | accept => exact ⟨rfl, hb.proper.eoi_lt⟩
  | reduce _ hrule ht =>
    exact ⟨hkept _ hrule, ((hb.isLalr.lookaheads st hst item hitem c).mp ht).lt_width hb.proper⟩
  | fallback _ hrule => exact ⟨hkept _ hrule, hb.valid.two_le_size⟩

/-- The grammar accepts for the item `^ → s .`, which is met before the end of input only. -/
lemma accepting (hitem : item ∈ st.items (g.productions s).basis)
    (hrule : ((g.productions s).basis.production item.key).rule = none) :
    item.lookaheads = .singleton SymbolId.eoi ∧
      ((g.productions s).basis.production item.key).rhs = [.nonterminal s] := by
  have hi := hb.dotted_mem_closure hst hitem
  have hK := hb.isLalr.reachable st hst
  obtain ⟨prod, hp, -⟩ := hK.isDotted hb.proper hi
  rw [Productions.production_eq hp] at hrule ⊢
  have h0 : ((g.productions s).basis.dotted item.key).production = 0 := by
    by_contra hne
    obtain ⟨r, -, rfl⟩ := exists_rule_of_productions_get? hp hne
    cases hrule
  constructor
  · refine TerminalSet.ext_mem fun t => ?_
    rw [hb.isLalr.lookaheads st hst item hitem, hK.lalr_iff_eq_eoi hb.proper hi h0,
      TerminalSet.mem_singleton]
  · rw [h0, hb.proper.start, Option.some.injEq] at hp
    rw [← hp]

end Grammar.Builds

/-! ## Rows -/

namespace Row

/-- A cell of a row that was changed cell by cell and has one more. -/
lemma join_getElem?_map_append {α β : Type} (f : α → β) (l : List (Option α)) {x : Option β}
    {c : Nat} (hc : c ≠ l.length ∨ x = none) :
    ((l.map (Option.map f) ++ [x])[c]?).join = ((l[c]?).join).map f := by
  have hlength : (l.map (Option.map f)).length = l.length := List.length_map _
  rcases Nat.lt_trichotomy c l.length with hlt | rfl | hgt
  · rw [List.getElem?_append_left (hlength ▸ hlt), List.getElem?_map]
    cases l[c]? with
    | none => rfl
    | some cell => rfl
  · rw [hc.resolve_left fun hne => hne rfl, List.getElem?_append_right (Nat.le_of_eq hlength),
      hlength, Nat.sub_self, List.getElem?_eq_none (Nat.le_refl _)]
    rfl
  · have hlast : (l.map (Option.map f) ++ [x]).length ≤ c := by
      rw [List.length_append, hlength]
      exact hgt
    rw [List.getElem?_eq_none hlast, List.getElem?_eq_none (Nat.le_of_lt hgt)]
    rfl

/-- The second rows have the copies of the actions of the first and one column more, in which there
is at most a goto. -/
structure Copied (g : Grammar) (s : SymbolId) (dest : Option StateId) (row row' : Row) : Prop where
  actions : row'.actions = row.actions.map (Option.map (g.copyAction s)) ++ [none]
  gotos : row'.gotos = row.gotos.map (Option.map (· + 1)) ++ [dest]
  length : row.actions.length = g.symbols.size ∧ row.gotos.length = g.symbols.size
  apt : ∀ c a, row.Has c a → g.Apt s c a

namespace Copied

variable {g h : Grammar} {s c : SymbolId} {dest : Option StateId} {row row' : Row} {a : Action}
  {state state' : StateId}

lemma blank (g : Grammar) (s : SymbolId) :
    Copied g s none (blank g.symbols.size) (blank (g.symbols.size + 1)) where
  actions := by
    show List.replicate _ none = (List.replicate _ none).map _ ++ [none]
    rw [List.map_replicate, List.replicate_succ']
    rfl
  gotos := by
    show List.replicate _ none = (List.replicate _ none).map _ ++ [none]
    rw [List.map_replicate, List.replicate_succ']
    rfl
  length := ⟨List.length_replicate, List.length_replicate⟩
  apt := by
    intro c a hhas
    have hmem := List.mem_of_getElem? hhas
    cases List.eq_of_mem_replicate hmem

/-- The goto of the new column. -/
lemma setLast (hrows : Copied g s none row row') (dest : StateId) : Copied g s (some dest) row
    { row' with gotos := row'.gotos.set g.symbols.size (some dest) } where
  actions := hrows.actions
  gotos := by
    have hlength : (row.gotos.map (Option.map (· + 1))).length = g.symbols.size := by
      rw [List.length_map, hrows.length.2]
    rw [hrows.gotos, List.set_append_right _ _ (Nat.le_of_eq hlength), hlength, Nat.sub_self]
    rfl
  length := hrows.length
  apt := hrows.apt

lemma set_goto (hrows : Copied g s dest row row') (hc : c < g.symbols.size) (d : StateId) :
    Copied g s dest { row with gotos := row.gotos.set c (some d) }
      { row' with gotos := row'.gotos.set c (some (d + 1)) } where
  actions := hrows.actions
  gotos := by
    have hlength : c < (row.gotos.map (Option.map (· + 1))).length := by
      rw [List.length_map, hrows.length.2]
      exact hc
    rw [hrows.gotos, List.set_append_left _ _ hlength, List.map_set]
    rfl
  length := ⟨hrows.length.1, List.length_set.trans hrows.length.2⟩
  apt := hrows.apt

lemma exists_cell (hrows : Copied g s dest row row') (hc : c < g.symbols.size) :
    ∃ cell, row.actions[c]? = some cell ∧ row'.actions[c]? = some (cell.map (g.copyAction s)) ∧
      ∀ a ∈ cell, g.Apt s c a := by
  have hlt : c < row.actions.length := hrows.length.1 ▸ hc
  have hcell : row.actions[c]? = some row.actions[c] := List.getElem?_eq_getElem hlt
  refine ⟨row.actions[c], hcell, ?_, fun a ha => hrows.apt c a (hcell.trans (congrArg some ha))⟩
  rw [hrows.actions, List.getElem?_append_left (by rwa [List.length_map]), List.getElem?_map, hcell,
    Option.map_some]

/-- Entering an action in one and its copy in the other. -/
lemma set_action (hrows : Copied g s dest row row') (hc : c < g.symbols.size)
    {next : Option Action} (hnext : ∀ a ∈ next, g.Apt s c a)
    (conflicts conflicts' : List Conflict) :
    Copied g s dest ⟨row.actions.set c next, row.gotos, conflicts⟩
      ⟨row'.actions.set c (next.map (g.copyAction s)), row'.gotos, conflicts'⟩ where
  actions := by
    have hlength : c < (row.actions.map (Option.map (g.copyAction s))).length := by
      rw [List.length_map, hrows.length.1]
      exact hc
    rw [hrows.actions, List.set_append_left _ _ hlength, List.map_set]
  gotos := hrows.gotos
  length := ⟨List.length_set.trans hrows.length.1, hrows.length.2⟩
  apt := by
    intro c' a hhas
    by_cases hsame : c = c'
    · subst hsame
      rw [Has, List.getElem?_set_self (hrows.length.1 ▸ hc), Option.some.injEq] at hhas
      exact hnext a hhas
    · rw [Has, List.getElem?_set_ne hsame] at hhas
      exact hrows.apt c' a hhas

lemma put (hf : g.IsFragment h s) (hrows : Copied g s dest row row') (ha : g.Apt s c a)
    (hc : c < g.symbols.size) : Copied g s dest (row.put g state c a)
      (row'.put h state' c (g.copyAction s a)) := by
  obtain ⟨cell, hcell, hcell', hapt⟩ := hrows.exists_cell hc
  simp only [Row.put, hcell, hcell', hf.offer_copy hapt ha]
  exact hrows.set_action hc (fun b hb => Grammar.Apt.offer hapt ha hb) _ _

lemma putAll (hf : g.IsFragment h s) {rule : RuleId} {l : List SymbolId}
    (hrows : Copied g s dest row row')
    (hl : ∀ c ∈ l, g.Apt s c (.reduce rule) ∧ c < g.symbols.size) :
    Copied g s dest (row.putAll g state rule l) (row'.putAll h state' (g.copyOf s rule) l) := by
  induction l generalizing row row' with
  | nil => exact hrows
  | cons c l ih =>
    obtain ⟨⟨ha, hc⟩, hl⟩ := List.forall_mem_cons.mp hl
    exact ih (hrows.put hf ha hc) hl

lemma putFallback {rule : RuleId} (hrows : Copied g s dest row row')
    (hrule : g.Apt s SymbolId.epsilon (.reduce rule)) (hsize : SymbolId.epsilon < g.symbols.size) :
    Copied g s dest (row.putFallback rule) (row'.putFallback (g.copyOf s rule)) := by
  obtain ⟨cell, hcell, hcell', hapt⟩ := hrows.exists_cell hsize
  rw [Row.putFallback, Row.putFallback, Discovery.modify_eq_set _ hcell,
    Discovery.modify_eq_set _ hcell', Grammar.offerFallback_copy hapt hrule]
  refine hrows.set_action hsize (fun b hb => ?_) _ _
  rcases offerFallback_mem hb with hb | rfl
  · exact hapt b hb
  · exact hrule

variable {st st' : State} {item : Item}

/-- The item of the fragment in the place of one of the grammar. -/
def copyItem (g h : Grammar) (s : SymbolId) (item : Item) : Item :=
  item.rekey ((g.productions s).basis.placeKey (h.productions g.symbols.size) (g.placeOf s))

section AddItem

variable {t : ActionTable} (hf : g.IsFragment h s) (hk' : (h.productions g.symbols.size).KeysFit)
  (hb : g.Builds s t)
  (hkey : item.key ∈ (g.productions s).keptKeys {prod | g.kept s prod = true} 0)

include hf hk' hb hkey

lemma remaining_copyItem : (h.productions g.symbols.size).basis.remaining
    (copyItem g h s item).key = (g.productions s).basis.remaining item.key :=
  (hf.productions.placed hb.keysFit hk' 0).remaining_placeKey hkey

lemma production_copyItem : (h.productions g.symbols.size).basis.production
    (copyItem g h s item).key =
      g.copyProduction s ((g.productions s).basis.production item.key) := by
  have hplaced := hf.productions.placed hb.keysFit hk' 0
  have hkept := hkey
  obtain ⟨⟨prod, hp, hkept, -⟩, -⟩ := hkept
  exact (hplaced.production_placeKey hkey (hf.get?_placeOf hp hkept)).trans
    (congrArg _ (Productions.production_eq hp).symm)

variable (heoi : ∀ r ∈ g.rules, SymbolId.eoi ∉ r.clause) (hst : st ∈ (g.automatonOf s).states)
  (hitem : item ∈ st.items (g.productions s).basis) (hrows : Copied g s dest row row')

include heoi hst hitem hrows

/-- An item with something after the dot shifts it or goes over it. -/
lemma addItem_cons {part : Part} {β : List Part}
    (hrest : (g.productions s).basis.remaining item.key = part :: β)
    (htarget : st'.target? part = (st.target? part).map (· + 1)) :
    Copied g s dest (row.addItem g (g.productions s).basis state st item)
      (row'.addItem h (h.productions g.symbols.size).basis state' st' (copyItem g h s item)) := by
  have hremaining := (remaining_copyItem hf hk' hb hkey).trans hrest
  cases hdest : st.target? part with
  | none =>
    rw [hdest] at htarget
    simp only [Row.addItem, hremaining, hrest, htarget, hdest, Option.map_none]
    exact hrows
  | some d =>
    rw [hdest] at htarget
    simp only [Row.addItem, hremaining, hrest, htarget, hdest, Option.map_some]
    cases part with
    | terminal c =>
      obtain ⟨ha, hc⟩ := hb.apt_of_calls hst heoi hitem hkey (.shift hrest hdest)
      exact hrows.put hf ha hc
    | nonterminal c =>
      rw [Productions.remaining_eq_rest] at hrest
      exact hrows.set_goto (hb.proper.symbol_lt_of_rest hrest).1 d

/-- The grammar accepts for `^ → s .` where the fragment reduces by its first rule. -/
lemma addItem_accept (hrest : (g.productions s).basis.remaining item.key = [])
    (hrule : ((g.productions s).basis.production item.key).rule = none) :
    Copied g s dest (row.addItem g (g.productions s).basis state st item)
      (row'.addItem h (h.productions g.symbols.size).basis state' st' (copyItem g h s item)) := by
  obtain ⟨hlookaheads, hrhs⟩ := hb.accepting hst hitem hrule
  obtain ⟨ha, hc⟩ := hb.apt_of_calls hst heoi hitem hkey (.accept hrest hrule)
  have hproduction := production_copyItem hf hk' hb hkey
  have hrule' : ((h.productions g.symbols.size).basis.production
      (copyItem g h s item).key).rule = some 0 := by
    rw [hproduction, Grammar.copyProduction, hrule]
    rfl
  have hempty : ¬ (g.copyProduction s
      ((g.productions s).basis.production item.key)).rhs.isEmpty = true := by
    rw [Grammar.copyProduction, hrhs]
    exact Bool.false_ne_true
  rw [Row.addItem_reduce h state' row' ((remaining_copyItem hf hk' hb hkey).trans hrest) hrule',
    hproduction, if_neg hempty, copyItem, Item.rekey, hlookaheads]
  simp only [Row.addItem, hrest, hrule]
  exact hrows.put hf ha hc

lemma addItem_reduce {rule : RuleId}
    (hrest : (g.productions s).basis.remaining item.key = [])
    (hrule : ((g.productions s).basis.production item.key).rule = some rule) :
    Copied g s dest (row.addItem g (g.productions s).basis state st item)
      (row'.addItem h (h.productions g.symbols.size).basis state' st' (copyItem g h s item)) := by
  have hapt : ∀ {c a}, item.Calls (g.productions s).basis st c a →
      g.Apt s c a ∧ c < g.symbols.size := hb.apt_of_calls hst heoi hitem hkey
  have hproduction := production_copyItem hf hk' hb hkey
  have hrule' : ((h.productions g.symbols.size).basis.production
      (copyItem g h s item).key).rule = some (g.copyOf s rule) := by
    rw [hproduction, Grammar.copyProduction, hrule]
    rfl
  have hreduced : Copied g s dest (row.putAll g state rule item.lookaheads.toList)
      (row'.putAll h state' (g.copyOf s rule) item.lookaheads.toList) :=
    hrows.putAll hf fun c hc => hapt (.reduce hrest hrule (TerminalSet.mem_toList.mp hc))
  rw [Row.addItem_reduce h state' row' ((remaining_copyItem hf hk' hb hkey).trans hrest) hrule',
    Row.addItem_reduce g state row hrest hrule, hproduction, Grammar.copyProduction]
  by_cases hempty : ((g.productions s).basis.production item.key).rhs.isEmpty = true
  · obtain ⟨ha, hc⟩ := hapt (.fallback hrest hrule hempty)
    rw [if_pos hempty, if_pos hempty]
    exact hreduced.putFallback ha hc
  · rw [if_neg hempty, if_neg hempty]
    exact hreduced

lemma addItem (htarget : ∀ part, part ≠ .nonterminal g.symbols.size →
      st'.target? part = (st.target? part).map (· + 1)) :
    Copied g s dest (row.addItem g (g.productions s).basis state st item)
      (row'.addItem h (h.productions g.symbols.size).basis state' st' (copyItem g h s item)) := by
  cases hrest : (g.productions s).basis.remaining item.key with
  | cons part β =>
    refine addItem_cons hf hk' hb hkey heoi hst hitem hrows hrest (htarget part ?_)
    rintro rfl
    exact hf.productions.head?_remaining_ne item.key (by rw [hrest]; rfl)
  | nil =>
    cases hrule : ((g.productions s).basis.production item.key).rule with
    | none => exact addItem_accept hf hk' hb hkey heoi hst hitem hrows hrest hrule
    | some rule => exact addItem_reduce hf hk' hb hkey heoi hst hitem hrows hrest hrule

end AddItem

lemma foldl (state state' : StateId) (hf : g.IsFragment h s)
    (hk' : (h.productions g.symbols.size).KeysFit) {t : ActionTable} (hb : g.Builds s t)
    (heoi : ∀ r ∈ g.rules, SymbolId.eoi ∉ r.clause)
    (hst : st ∈ (g.automatonOf s).states)
    (htarget : ∀ part, part ≠ .nonterminal g.symbols.size →
      st'.target? part = (st.target? part).map (· + 1))
    {l : List Item} (hl : ∀ item ∈ l, item ∈ st.items (g.productions s).basis ∧
      item.key ∈ (g.productions s).keptKeys {prod | g.kept s prod = true} 0)
    (hrows : Copied g s dest row row') :
    Copied g s dest (l.foldl (Row.addItem g (g.productions s).basis state st) row)
      ((l.map (copyItem g h s)).foldl
        (Row.addItem h (h.productions g.symbols.size).basis state' st') row') := by
  induction l generalizing row row' with
  | nil => exact hrows
  | cons item l ih =>
    obtain ⟨⟨hitem, hkey⟩, hl⟩ := List.forall_mem_cons.mp hl
    exact ih hl (addItem hf hk' hb hkey heoi hst hitem hrows htarget)

/-- The cells of a row of the fragment. -/
lemma action?_eq (hrows : Copied g s dest row row') (c : SymbolId) :
    (row'.actions[c]?).join = ((row.actions[c]?).join).map (g.copyAction s) := by
  rw [hrows.actions]
  exact join_getElem?_map_append _ _ (.inr rfl)

lemma goto?_eq (hrows : Copied g s dest row row') (hc : c ≠ g.symbols.size) :
    (row'.gotos[c]?).join = ((row.gotos[c]?).join).map (· + 1) := by
  rw [hrows.gotos]
  exact join_getElem?_map_append _ _ (.inl (hrows.length.2 ▸ hc))

/-- The start symbol of the fragment is not a terminal, and so not expected. -/
lemma expected_eq (hf : g.IsFragment h s) (hrows : Copied g s dest row row') :
    row'.expected h = row.expected g := by
  have hlength : row'.actions.length = g.symbols.size + 1 := by
    rw [hrows.actions, List.length_append, List.length_map, hrows.length.1]
    rfl
  have hstart : h.symbols.isTerminal g.symbols.size = false := by
    rw [← Bool.not_eq_true]
    exact fun hterminal => SymbolTable.ne_of_kinds hf.isNonterminal_start hterminal rfl
  rw [Row.expected, Row.expected, hlength, hrows.length.1, List.range_succ, List.filter_append,
    List.filter_singleton, hstart, Bool.false_and, cond_false, List.append_nil]
  refine List.filter_congr fun c hc => ?_
  have hc := List.mem_range.mp hc
  obtain ⟨cell, hcell, hcell', -⟩ := hrows.exists_cell hc
  simp only [hcell, hcell', hf.isTerminal_eq (Nat.ne_of_lt hc)]
  cases cell with
  | none => rfl
  | some a =>
    have hfail : (g.copyAction s a != .fail) = (a != .fail) := by
      rw [Bool.eq_iff_iff, bne_iff_ne, bne_iff_ne, ne_eq, ne_eq, Grammar.copyAction_eq_fail_iff]
    rw [Option.map_some]
    exact congrArg _ hfail

end Copied

end Row

/-! ## Tables -/

/-- The number in the fragment of a state of the grammar. State 1 of the fragment is the one entered
over its start symbol. -/
def copyState : StateId → StateId
  | 0 => 0
  | i + 1 => i + 2

/-- The second table says in the states of the first what that one says, and leads from the start
over the start symbol to a state in which it accepts. -/
structure ActionTable.Copied (g : Grammar) (s : SymbolId) (t t' : ActionTable) : Prop where
  action? : ∀ i c, t'.action? (copyState i) c = (t.action? i c).map (g.copyAction s)
  goto? : ∀ i c, c ≠ g.symbols.size → t'.goto? (copyState i) c = (t.goto? i c).map (· + 1)
  expectedIn : ∀ i, t'.expectedIn (copyState i) = t.expectedIn i
  apt : ∀ i c a, t.action? i c = some a → g.Apt s c a
  goto_pos : ∀ i c dest, t.goto? i c = some dest → 0 < dest
  start : t'.goto? 0 g.symbols.size = some 1
  accept : t'.action? 1 SymbolId.eoi = some .accept

namespace Grammar.IsFragment

variable {g h : Grammar} {s : SymbolId} {t t' : ActionTable} (hf : g.IsFragment h s)
  (hb : g.Builds s t) (hb' : h.Builds g.symbols.size t')

include hf hb hb'

/-- The start states have the same rows but for the goto over the start symbol. -/
lemma start_rows (heoi : ∀ r ∈ g.rules, SymbolId.eoi ∉ r.clause) :
    ∃ st st', (g.automatonOf s).states[0]? = some st ∧
      (h.automatonOf g.symbols.size).states[0]? = some st' ∧
      Row.Copied g s (some 1) (Row.ofState g (g.productions s).basis 0 st)
        (Row.ofState h (h.productions g.symbols.size).basis 0 st') := by
  have hfragment := hf.productions
  obtain ⟨st, states, hstates, hstates', hkernel, hwithin, -⟩ :=
    hfragment.states_eq hb.keysFit hb'.keysFit
  have hst : (g.automatonOf s).states[0]? = some st := congrArg (·[0]?) hstates
  refine ⟨st, _, hst, congrArg (·[0]?) hstates', ?_⟩
  have hkeys := ((hfragment.mirrors hb.keysFit hb'.keysFit 0).items id hwithin).2
  have htarget : ∀ part, part ≠ .nonterminal g.symbols.size →
      (st.fronted (h.productions g.symbols.size).basis g.symbols.size).target? part =
        (st.target? part).map (· + 1) := by
    intro part hpart
    rw [← State.target?_relabel id]
    exact List.lookup_cons.trans (by rw [beq_eq_false_iff_ne.mpr hpart]; rfl)
  -- of the start state of the fragment the first item fills the goto over the start symbol
  have hfirst : Row.addItem h (h.productions g.symbols.size).basis 0
      (st.fronted (h.productions g.symbols.size).basis g.symbols.size)
      (Row.blank (g.symbols.size + 1))
      ⟨(h.productions g.symbols.size).basis.key 0 0, .singleton SymbolId.eoi⟩ =
      { Row.blank (g.symbols.size + 1) with
        gotos := (Row.blank (g.symbols.size + 1)).gotos.set g.symbols.size (some 1) } := by
    have htarget : (st.fronted (h.productions g.symbols.size).basis g.symbols.size).target?
        (.nonterminal g.symbols.size) = some 1 := List.lookup_cons_self
    simp only [Row.addItem, hf.fragment_proper.remaining_start, htarget]
  have hitems : (st.fronted (h.productions g.symbols.size).basis (g.productions s).width).items
      (h.productions g.symbols.size).basis = _ :=
    hfragment.items_front hb.keysFit hb'.keysFit hwithin hkernel _
  have hrows := ((Row.Copied.blank g s).setLast 1).foldl 0 0 hf hb'.keysFit hb heoi
    (List.mem_of_getElem? hst) htarget fun item hitem => ⟨hitem, hkeys item hitem⟩
  have hwidth : (h.productions g.symbols.size).basis.productions.width = g.symbols.size + 1 :=
    hf.size_eq
  rw [Row.ofState, Row.ofState, hwidth, hitems, List.foldl_cons]
  rw [← hfirst] at hrows
  exact hrows

/-- The states of the grammar and those of the fragment go together, and so do their rows. -/
lemma exists_rows (heoi : ∀ r ∈ g.rules, SymbolId.eoi ∉ r.clause) (i : StateId) :
    ((g.automatonOf s).states[i]? = none ∧
      (h.automatonOf g.symbols.size).states[copyState i]? = none) ∨
    ∃ st st' dest, (g.automatonOf s).states[i]? = some st ∧
      (h.automatonOf g.symbols.size).states[copyState i]? = some st' ∧
      Row.Copied g s dest (Row.ofState g (g.productions s).basis i st)
        (Row.ofState h (h.productions g.symbols.size).basis (copyState i) st') := by
  cases i with
  | zero =>
    obtain ⟨st, st', hst, hst', hrows⟩ := hf.start_rows hb hb' heoi
    exact .inr ⟨st, st', some 1, hst, hst', hrows⟩
  | succ i =>
    have hfragment := hf.productions
    obtain ⟨_, states, hstates, hstates', -, -, hwithins⟩ :=
      hfragment.states_eq hb.keysFit hb'.keysFit
    have hst : (g.automatonOf s).states[i + 1]? = states[i]? := congrArg (·[i + 1]?) hstates
    have hst' : (h.automatonOf g.symbols.size).states[i + 2]? = (states[i]?).map _ :=
      (congrArg (·[i + 2]?) hstates').trans List.getElem?_map
    cases hi : states[i]? with
    | none => exact .inl ⟨hst.trans hi, hst'.trans (by rw [hi]; rfl)⟩
    | some st =>
      right
      refine ⟨st, _, none, hst.trans hi, hst'.trans (by rw [hi]; rfl), ?_⟩
      have hwithin := hwithins st (List.mem_of_getElem? hi)
      obtain ⟨hitems, hkeys⟩ := (hfragment.mirrors hb.keysFit hb'.keysFit 1).items (· + 1) hwithin
      have hwidth : (h.productions g.symbols.size).basis.productions.width = g.symbols.size + 1 :=
        hf.size_eq
      rw [Row.ofState, Row.ofState, hitems, hwidth]
      refine (Row.Copied.blank g s).foldl _ _ hf hb'.keysFit hb heoi
        (List.mem_of_getElem? (hst.trans hi)) (fun part _ => State.target?_relabel _ _ _ _)
        fun item hitem => ⟨hitem, ?_⟩
      exact ⟨(hkeys item hitem).1, fun _ => Nat.zero_le _⟩

end Grammar.IsFragment

end ShiftReduce
