import ShiftReduce.Grammar.Fragment
import ShiftReduce.Proofs.Grammar.Names
import ShiftReduce.Proofs.Grammar.Reach
/-!
# The fragment for the accepted symbol

A fragment of its own has one symbol more than the grammar it is taken from, which its first rule
`start → s` defines. After it come the rules below `s` in their order, with other numbers. They
inherit the levels they had: a rule inherits from rules whose target its clause mentions, and with
the rule these are below `s` too.

Main statements: `Grammar.Valid.isFragment_extract` and `Grammar.IsFragment.exists_table_iff`.
-/

namespace ShiftReduce

/-! ## Places in a filtered list -/

section Places

variable {α : Type} {test : α → Bool} {l : List α} {a : α} {i j : Nat}

/-- The place of a member among those that pass a test is the number of them before it. -/
lemma getElem?_filter_countP (h : l[i]? = some a) (ha : test a = true) :
    (l.filter test)[(l.take i).countP test]? = some a := by
  induction l generalizing i with
  | nil => cases h
  | cons x l ih =>
    cases i with
    | zero =>
      cases h
      rw [List.filter_cons_of_pos ha]
      rfl
    | succ i =>
      have ih := ih h
      rw [List.take_succ_cons, List.countP_cons, List.filter_cons]
      split <;> simpa using ih

lemma exists_of_getElem?_filter (h : (l.filter test)[j]? = some a) :
    ∃ i, l[i]? = some a ∧ (l.take i).countP test = j := by
  induction l generalizing j with
  | nil => cases h
  | cons x l ih =>
    rw [List.filter_cons] at h
    split at h
    · next hx =>
      cases j with
      | zero => exact ⟨0, h, rfl⟩
      | succ j =>
        obtain ⟨i, hi, hj⟩ := ih h
        exact ⟨i + 1, hi, by rw [List.take_succ_cons, List.countP_cons, if_pos hx, hj]⟩
    · next hx =>
      obtain ⟨i, hi, hj⟩ := ih h
      exact ⟨i + 1, hi, by rw [List.take_succ_cons, List.countP_cons, if_neg hx, hj, Nat.add_zero]⟩

lemma countP_take_lt (h : l[i]? = some a) (ha : test a = true) (hij : i < j) :
    (l.take i).countP test < (l.take j).countP test := by
  have hsucc : (l.take (i + 1)).countP test = (l.take i).countP test + 1 := by
    rw [List.take_add_one, h, Option.toList_some, List.countP_append,
      List.countP_singleton, if_pos ha]
  have hle : (l.take (i + 1)).countP test ≤ (l.take j).countP test :=
    (List.take_sublist_take_left hij).countP_le
  omega

end Places

namespace Grammar

variable {g h : Grammar} {s t : SymbolId} {r : Rule} {id : RuleId}

/-- Is the second symbol visited in a search from the first? -/
def reached (g : Grammar) (s t : SymbolId) : Bool := ((g.reach s).map Visit.symbol).contains t

lemma reached_iff : g.reached s t = true ↔ g.Reaches s t := by
  rw [reached, List.contains_iff_mem, mem_reach_iff]

/-! ## A new root -/

/-- But for numbers and levels, the rules of the second grammar are those of the first below a
symbol, and one that derives the symbol from a new root. -/
structure RootedBelow (g h : Grammar) (root s : SymbolId) : Prop where
  kind : h.symbols.isNonterminal s = true
  kinds : ∀ r ∈ g.rules, ∀ t ∈ r.clause, h.symbols.isNonterminal t = g.symbols.isNonterminal t
  new : ∀ t, g.Reaches s t → t ≠ root
  root_mem : ∃ r' ∈ h.rules, r'.target = root ∧ r'.clause = [s]
  below_mem : ∀ r ∈ g.rules, g.Reaches s r.target →
    ∃ r' ∈ h.rules, r'.target = r.target ∧ r'.clause = r.clause
  of_mem : ∀ r' ∈ h.rules, r'.target = root ∧ r'.clause = [s] ∨
    ∃ r ∈ g.rules, g.Reaches s r.target ∧ r'.target = r.target ∧ r'.clause = r.clause

namespace RootedBelow

variable {root : SymbolId} (hr : g.RootedBelow h root s)

include hr

/-- From its root the second grammar reaches what the first one reaches from the symbol. -/
lemma reaches_iff : h.Reaches root t ↔ t = root ∨ g.Reaches s t := by
  constructor
  · intro hreaches
    induction hreaches with
    | refl => exact .inl rfl
    | @tail a b _ hmentions ih =>
      right
      obtain ⟨r', hr', rfl, hmem, hnonterminal⟩ := hmentions
      rcases hr.of_mem r' hr' with ⟨-, hclause⟩ | ⟨r, hrmem, hbelow, -, hclause⟩
      · rw [hclause] at hmem
        rw [List.mem_singleton.mp hmem]
        exact .refl
      · rw [hclause] at hmem
        rw [hr.kinds r hrmem b hmem] at hnonterminal
        exact hbelow.tail ⟨r, hrmem, rfl, hmem, hnonterminal⟩
  · rintro (rfl | hreaches)
    · exact .refl
    · induction hreaches with
      | refl =>
        obtain ⟨first, hfirst, htarget, hclause⟩ := hr.root_mem
        exact .single ⟨first, hfirst, htarget, by simp [hclause], hr.kind⟩
      | @tail a b hbelow hmentions ih =>
        obtain ⟨r, hrmem, rfl, hmem, hnonterminal⟩ := hmentions
        obtain ⟨r', hr', htarget', hclause'⟩ := hr.below_mem r hrmem hbelow
        refine ih.tail ⟨r', hr', htarget', hclause' ▸ hmem, ?_⟩
        rwa [hr.kinds r hrmem b hmem]

/-- What is reached from the root is defined if what is reached from the symbol is. -/
lemma defined_iff : (∀ t, h.Reaches root t → ∃ r ∈ h.rules, r.target = t) ↔
    ∀ t, g.Reaches s t → ∃ r ∈ g.rules, r.target = t := by
  constructor
  · intro hdefined t ht
    obtain ⟨r', hr', rfl⟩ := hdefined t (hr.reaches_iff.mpr (.inr ht))
    rcases hr.of_mem r' hr' with ⟨htarget, -⟩ | ⟨r, hrmem, -, htarget, -⟩
    · exact absurd htarget (hr.new _ ht)
    · exact ⟨r, hrmem, htarget.symm⟩
  · intro hdefined t ht
    rcases hr.reaches_iff.mp ht with rfl | hreaches
    · obtain ⟨first, hfirst, htarget, -⟩ := hr.root_mem
      exact ⟨first, hfirst, htarget⟩
    · obtain ⟨r, hrmem, rfl⟩ := hdefined t hreaches
      obtain ⟨r', hr', htarget, -⟩ := hr.below_mem r hrmem hreaches
      exact ⟨r', hr', htarget⟩

end RootedBelow

/-! ## Copies -/

/-- The number that a rule below a symbol has in the fragment for the symbol. -/
def copyOf (g : Grammar) (s : SymbolId) (id : RuleId) : RuleId :=
  (g.rules.take id).countP (fun r => g.reached s r.target) + 1

lemma copyOf_mono (g : Grammar) (s : SymbolId) : Monotone (g.copyOf s) := fun _ _ hle =>
  Nat.succ_le_succ (List.take_sublist_take_left hle).countP_le

lemma copyOf_lt {id' : RuleId} (hr : g.rule? id = some r) (hreaches : g.Reaches s r.target)
    (hlt : id < id') : g.copyOf s id < g.copyOf s id' :=
  Nat.succ_lt_succ (countP_take_lt hr (reached_iff.mpr hreaches) hlt)

/-- Among the rules below a symbol the numbers tell the copies apart. -/
lemma copyOf_inj {id' : RuleId} {r' : Rule} (hr : g.rule? id = some r)
    (hreaches : g.Reaches s r.target) (hr' : g.rule? id' = some r')
    (hreaches' : g.Reaches s r'.target) (heq : g.copyOf s id = g.copyOf s id') : id = id' := by
  rcases Nat.lt_trichotomy id id' with hlt | hid | hlt
  · exact absurd heq (Nat.ne_of_lt (copyOf_lt hr hreaches hlt))
  · exact hid
  · exact absurd heq.symm (Nat.ne_of_lt (copyOf_lt hr' hreaches' hlt))

/-- A rule with that number. -/
def copyRule (g : Grammar) (s : SymbolId) (r : Rule) : Rule := { r with id := g.copyOf s r.id }

/-- The second grammar is the fragment of the first for its accepted symbol. -/
structure IsFragment (g h : Grammar) (s : SymbolId) : Prop where
  valid : g.Valid
  fragment_valid : h.Valid
  accepts : g.target = some s
  fragment_accepts : h.target = some g.symbols.size
  symbols : ∃ name, h.symbols.entries = g.symbols.entries ++ [⟨.nonterminal, name⟩]
  levels : h.levels = g.levels
  rules : ∃ first : Rule, first.id = 0 ∧ first.target = g.symbols.size ∧ first.clause = [s] ∧
    first.action = none ∧ h.rules = first :: (g.rulesBelow s).map (g.copyRule s)

namespace IsFragment

variable (hf : g.IsFragment h s)

include hf

/-! ## Symbols -/

lemma get?_eq (ht : t ≠ g.symbols.size) : h.symbols.get? t = g.symbols.get? t := by
  obtain ⟨name, hname⟩ := hf.symbols
  rw [SymbolTable.get?, SymbolTable.get?, hname]
  rcases Nat.lt_or_gt_of_ne ht with hlt | hgt
  · exact List.getElem?_append_left hlt
  · have hgt : g.symbols.entries.length < t := hgt
    rw [List.getElem?_eq_none (Nat.le_of_lt hgt), List.getElem?_eq_none]
    rw [List.length_append, List.length_singleton]
    exact hgt

lemma isNonterminal_eq (ht : t ≠ g.symbols.size) :
    h.symbols.isNonterminal t = g.symbols.isNonterminal t := by
  rw [SymbolTable.isNonterminal, SymbolTable.kind?, hf.get?_eq ht]
  rfl

lemma isTerminal_eq (ht : t ≠ g.symbols.size) :
    h.symbols.isTerminal t = g.symbols.isTerminal t := by
  rw [SymbolTable.isTerminal, SymbolTable.kind?, hf.get?_eq ht]
  rfl

lemma size_eq : h.symbols.size = g.symbols.size + 1 := by
  obtain ⟨name, hname⟩ := hf.symbols
  rw [SymbolTable.size, hname, List.length_append, List.length_singleton]
  rfl

lemma isNonterminal_start : h.symbols.isNonterminal g.symbols.size = true :=
  hf.fragment_valid.isNonterminal_target hf.fragment_accepts

/-- The symbols below the accepted one are non-terminals of the grammar. -/
lemma isNonterminal_of_reaches (ht : g.Reaches s t) : g.symbols.isNonterminal t = true := by
  cases ht with
  | refl => exact hf.valid.isNonterminal_target hf.accepts
  | tail _ hmentions =>
    obtain ⟨r, -, -, -, hnonterminal⟩ := hmentions
    exact hnonterminal

lemma lt_size_of_reaches (ht : g.Reaches s t) : t < g.symbols.size :=
  SymbolTable.lt_size_of_isNonterminal (hf.isNonterminal_of_reaches ht)

lemma ne_size_of_mem_clause (hr : r ∈ g.rules) (ht : t ∈ r.clause) : t ≠ g.symbols.size :=
  Nat.ne_of_lt (of_decide_eq_true (hf.valid.clause_known r hr t ht))

/-! ## Rules -/

/-- The fragment begins with the rule of its start symbol. -/
lemma exists_first : ∃ first : Rule, h.rule? 0 = some first ∧ first.id = 0 ∧
    first.target = g.symbols.size ∧ first.clause = [s] ∧ first.action = none := by
  obtain ⟨first, hid, htarget, hclause, haction, hrules⟩ := hf.rules
  refine ⟨first, ?_, hid, htarget, hclause, haction⟩
  rw [rule?, hrules, List.getElem?_cons_zero]

/-- A rule below the accepted symbol has a copy with another number. -/
lemma rule?_copyOf (hr : g.rule? id = some r) (hreaches : g.Reaches s r.target) :
    h.rule? (g.copyOf s id) = some (g.copyRule s r) := by
  obtain ⟨first, -, -, -, -, hrules⟩ := hf.rules
  have hkept : (g.rulesBelow s)[(g.rules.take id).countP fun r => g.reached s r.target]? = some r :=
    getElem?_filter_countP hr (reached_iff.mpr hreaches)
  rw [rule?, hrules, copyOf, List.getElem?_cons_succ, List.getElem?_map, hkept]
  rfl

/-! ## What is reached -/

lemma rootedBelow : g.RootedBelow h g.symbols.size s := by
  obtain ⟨first, hfirst, -, htarget, hclause, -⟩ := hf.exists_first
  obtain ⟨_, -, htarget', hclause', -, hrules⟩ := hf.rules
  refine ⟨?_, fun r hr t ht => hf.isNonterminal_eq (hf.ne_size_of_mem_clause hr ht),
    fun t ht => Nat.ne_of_lt (hf.lt_size_of_reaches ht),
    ⟨first, List.mem_of_getElem? hfirst, htarget, hclause⟩, fun r hr hreaches => ?_,
    fun r' hr' => ?_⟩
  · rw [hf.isNonterminal_eq (Nat.ne_of_lt (hf.lt_size_of_reaches .refl))]
    exact hf.isNonterminal_of_reaches .refl
  · obtain ⟨id, hid⟩ := List.mem_iff_getElem?.mp hr
    exact ⟨_, List.mem_of_getElem? (hf.rule?_copyOf hid hreaches), rfl, rfl⟩
  · rw [hrules] at hr'
    rcases List.mem_cons.mp hr' with rfl | hr'
    · exact .inl ⟨htarget', hclause'⟩
    · obtain ⟨r, hr, rfl⟩ := List.mem_map.mp hr'
      obtain ⟨hr, hreaches⟩ := mem_rulesBelow.mp hr
      exact .inr ⟨r, hr, hreaches, rfl, rfl⟩

/-- The fragment is refused if and only if the grammar is. -/
lemma exists_table_iff : (∃ t, h.table = .ok t) ↔ ∃ t, g.table = .ok t := by
  rw [Grammar.exists_table_iff hf.fragment_accepts, Grammar.exists_table_iff hf.accepts]
  exact hf.rootedBelow.defined_iff

end IsFragment

/-! ## Levels in a fragment -/

lemma findSome?_congr {α β : Type} {f f' : α → Option β} {l : List α}
    (hl : ∀ a ∈ l, f a = f' a) : l.findSome? f = l.findSome? f' := by
  induction l with
  | nil => rfl
  | cons a l ih =>
    obtain ⟨ha, hl⟩ := List.forall_mem_cons.mp hl
    rw [List.findSome?_cons, List.findSome?_cons, ha, ih hl]

lemma findSome?_filter {α β : Type} {f : α → Option β} {test : α → Bool} {l : List α}
    (hl : ∀ a ∈ l, test a = false → f a = none) :
    (l.filter test).findSome? f = l.findSome? f := by
  induction l with
  | nil => rfl
  | cons a l ih =>
    obtain ⟨ha, hl⟩ := List.forall_mem_cons.mp hl
    rw [List.filter_cons, List.findSome?_cons]
    cases htest : test a with
    | true => rw [if_pos rfl, List.findSome?_cons, ih hl]
    | false => rw [if_neg Bool.false_ne_true, ha htest, ih hl]

/-- What is read of rules without their numbers is found as well when they are numbered anew. -/
lemma findSome?_reverse_renumber {f : Rule → Option Nat} (hf : ∀ r i, f { r with id := i } = f r)
    (l : List Rule) : (renumber l).reverse.findSome? f = l.reverse.findSome? f := by
  have hread : (renumber l).map f = l.map f := by
    refine List.ext_getElem? fun i => ?_
    simp only [renumber, List.getElem?_map, List.getElem?_mapIdx, Option.map_map]
    exact congrArg (l[i]?.map ·) (funext fun r => hf r i)
  have hfind := congrArg (fun l => l.reverse.findSome? id) hread
  simpa only [← List.map_reverse, List.findSome?_map, Function.id_comp] using hfind

lemma inherited_eq (hr : (g.ownLevel r).or (g.passedLevel r) = r.inheritedLevel) :
    g.inherited r = r := by
  rw [inherited, hr]

/-- Where the levels of a grammar were inherited they are inherited again as they are. -/
lemma inherited_of_mem_inheritLevels (hr : r ∈ g.inheritLevels.rules) :
    g.inheritLevels.inherited r = r := by
  obtain ⟨r₀, -, rfl⟩ := List.mem_map.mp hr
  have hpassed : g.inheritLevels.passedLevel (g.inherited r₀) = g.passedLevel r₀ := by
    rw [passedLevel, inheritLevels, ← List.map_reverse, List.findSome?_map]
    rfl
  exact inherited_eq (congrArg (g.ownLevel r₀).or hpassed)

section Extract

variable (g) (s)

lemma symbols_extract : ∃ name, (g.extract s).symbols.entries =
    g.symbols.entries ++ [⟨.nonterminal, name⟩] :=
  ⟨_, congrArg (fun x => SymbolTable.entries x.2) (SymbolTable.internFresh_eq _ _)⟩

lemma rules_extract : (g.extract s).rules =
    renumber ({ Rule.plain 0 g.symbols.size [s] with name := some "start" } :: g.rulesBelow s) := by
  rw [extract, SymbolTable.internFresh_eq]

lemma target_extract : (g.extract s).target = some g.symbols.size := by
  rw [extract, SymbolTable.internFresh_eq]

variable {g} {s}

/-- The own level of a rule depends on its clause. -/
lemma ownLevel_extract (r' : Rule) (hclause : r'.clause = r.clause)
    (hknown : ∀ t ∈ r.clause, g.symbols.contains t = true) :
    (g.extract s).ownLevel r' = g.ownLevel r := by
  obtain ⟨name, hname⟩ := g.symbols_extract s
  rw [ownLevel, ownLevel, hclause]
  refine findSome?_congr fun t ht => ?_
  have hlt : t < g.symbols.entries.length := of_decide_eq_true (hknown t (List.mem_reverse.mp ht))
  have hterminal : (g.extract s).symbols.isTerminal t = g.symbols.isTerminal t := by
    rw [SymbolTable.isTerminal, SymbolTable.kind?, SymbolTable.get?, hname,
      List.getElem?_append_left hlt]
    rfl
  rw [hterminal]
  rfl

/-- Levels are passed on by rules that are in the fragment too. -/
lemma Valid.passedLevel_extract (hg : g.Valid) (hr : r ∈ g.rulesBelow s) (r' : Rule)
    (hclause : r'.clause = r.clause) : (g.extract s).passedLevel r' = g.passedLevel r := by
  obtain ⟨hmem, hbelow⟩ := mem_rulesBelow.mp hr
  have hknown := hg.clause_known r hmem
  have hstart : ¬ r.clause.contains g.symbols.size = true := fun ht =>
    Nat.lt_irrefl _ (of_decide_eq_true (hknown _ (List.contains_iff_mem.mp ht)))
  rw [passedLevel, passedLevel, rules_extract, hclause]
  refine (findSome?_reverse_renumber (fun _ _ => rfl) _).trans ?_
  rw [List.reverse_cons, List.findSome?_append, List.findSome?_singleton]
  refine (congrArg _ (if_neg hstart)).trans ?_
  rw [Option.or_none, rulesBelow, ← List.filter_reverse]
  refine (findSome?_filter fun other hother hnot => ?_).trans
    (findSome?_congr fun other hother => ?_)
  · have hother := List.mem_reverse.mp hother
    refine if_neg fun hmentioned => ?_
    have hreaches : g.Reaches s other.target := hbelow.tail ⟨r, hmem, rfl,
      List.contains_iff_mem.mp hmentioned, hg.target_nonterminal other hother⟩
    rw [List.contains_iff_mem.mpr (mem_reach_iff.mpr hreaches)] at hnot
    cases hnot
  · rw [ownLevel_extract other rfl (hg.clause_known other (List.mem_reverse.mp hother))]

/-- The rules of a fragment that are taken from the grammar inherit the levels they have. -/
lemma Valid.inherited_extract (hg : g.Valid) (hr : r ∈ g.inheritLevels.rulesBelow s) (i : RuleId) :
    (g.inheritLevels.extract s).inherited { r with id := i } = { r with id := i } := by
  obtain ⟨hmem, -⟩ := mem_rulesBelow.mp hr
  refine inherited_eq ?_
  rw [ownLevel_extract { r with id := i } rfl (hg.inheritLevels.clause_known r hmem),
    hg.inheritLevels.passedLevel_extract hr { r with id := i } rfl]
  exact congrArg Rule.inheritedLevel (inherited_of_mem_inheritLevels hmem)

end Extract

end Grammar

end ShiftReduce
