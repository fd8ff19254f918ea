import ShiftReduce.Grammar.Fragment
import ShiftReduce.Grammar.Shorthand
import ShiftReduce.Proofs.Grammar.Shape
/-!
# Valid grammars

A grammar is made by interning symbols and adding rules, and every operation keeps it in order: the
rules are numbered by position, they define non-terminals and mention known symbols only, no clause
is empty, and the accepted symbol is the one that rule 0 defines. The theory of the automaton and
of the parser is about grammars of this kind.

Main statements: `Grammar.Valid.addRule`, `Grammar.Valid.define`, `Grammar.Valid.acceptRule` and
`Grammar.Valid.resolve`.
-/

namespace ShiftReduce

/-- A parser finds only symbols of the clause on its stack. -/
lemma Rule.mem_clause {r : Rule} {s : SymbolId} (h : s ∈ r.symbols) : s ∈ r.clause := by
  rw [symbols] at h
  split at h
  · cases h
  · exact h

/-- What holds of every grammar that is made from the empty one by the operations on grammars. -/
structure Grammar.Valid (g : Grammar) : Prop where
  /-- The end of input and `ε` are where every table has them. -/
  reserved : SymbolTable.initial.entries <+: g.symbols.entries
  ids : g.rules.map Rule.id = List.range g.rules.length
  target_nonterminal : ∀ r ∈ g.rules, g.symbols.isNonterminal r.target = true
  clause_known : ∀ r ∈ g.rules, ∀ s ∈ r.clause, g.symbols.contains s = true
  clause_ne_nil : ∀ r ∈ g.rules, r.clause ≠ []
  accepts_first : g.target = g.rules.head?.map Rule.target

namespace SymbolTable

variable {t : SymbolTable} {s : SymbolId}

lemma lt_size_of_isNonterminal (h : t.isNonterminal s = true) : s < t.size := by
  simp only [isNonterminal, kind?, get?, beq_iff_eq, Option.map_eq_some_iff] at h
  obtain ⟨e, he, -⟩ := h
  exact (List.getElem?_eq_some_iff.mp he).1

lemma lt_size_of_isTerminal (h : t.isTerminal s = true) : s < t.size := by
  simp only [isTerminal, kind?, get?, beq_iff_eq, Option.map_eq_some_iff] at h
  obtain ⟨e, he, -⟩ := h
  exact (List.getElem?_eq_some_iff.mp he).1

lemma isTerminal_of_contains (h : t.contains s = true) (hs : t.isNonterminal s = false) :
    t.isTerminal s = true := by
  have hlt : s < t.entries.length := of_decide_eq_true h
  simp only [isNonterminal, isTerminal, kind?, get?, List.getElem?_eq_getElem hlt,
    Option.map_some] at hs ⊢
  cases hk : (t.entries[s]).kind with
  | terminal => rfl
  | nonterminal => simp [hk] at hs

lemma isNonterminal_eq_false_of_isTerminal (h : t.isTerminal s = true) :
    t.isNonterminal s = false := by
  simp only [isTerminal, beq_iff_eq] at h
  simp [isNonterminal, h]

lemma ne_of_kinds {s' : SymbolId} (hs : t.isNonterminal s = true) (hs' : t.isTerminal s' = true) :
    s ≠ s' := by
  rintro rfl
  rw [isNonterminal_eq_false_of_isTerminal hs'] at hs
  cases hs

lemma getElem?_of_prefix {t' : SymbolTable} (h : t.entries <+: t'.entries) {e : Symbol}
    (he : t.get? s = some e) : t'.get? s = some e := by
  obtain ⟨rest, h⟩ := h
  rw [get?, ← h]
  exact (List.getElem?_append_left (List.getElem?_eq_some_iff.mp he).1).trans he

lemma isNonterminal_of_prefix {t' : SymbolTable} (h : t.entries <+: t'.entries)
    (hs : t.isNonterminal s = true) : t'.isNonterminal s = true := by
  simp only [isNonterminal, kind?, beq_iff_eq, Option.map_eq_some_iff] at hs ⊢
  obtain ⟨e, he, hk⟩ := hs
  exact ⟨e, getElem?_of_prefix h he, hk⟩

lemma isTerminal_of_prefix {t' : SymbolTable} (h : t.entries <+: t'.entries)
    (hs : t.isTerminal s = true) : t'.isTerminal s = true := by
  simp only [isTerminal, kind?, beq_iff_eq, Option.map_eq_some_iff] at hs ⊢
  obtain ⟨e, he, hk⟩ := hs
  exact ⟨e, getElem?_of_prefix h he, hk⟩

lemma contains_of_prefix {t' : SymbolTable} (h : t.entries <+: t'.entries)
    (hs : t.contains s = true) : t'.contains s = true :=
  decide_eq_true (Nat.lt_of_lt_of_le (of_decide_eq_true hs) h.length_le)

/-- Interning only appends. -/
lemma prefix_intern (t : SymbolTable) (kind : SymbolKind) (name : String) :
    t.entries <+: (t.intern kind name).2.entries := by
  rw [intern]
  split
  · exact List.prefix_rfl
  · exact List.prefix_append _ _

lemma isNonterminal_intern (t : SymbolTable) (name : String) :
    (t.intern .nonterminal name).2.isNonterminal (t.intern .nonterminal name).1 = true := by
  rw [intern]
  split
  · next i hfind =>
    obtain ⟨hlt, heq, -⟩ := List.idxOf?_eq_some_iff.mp hfind
    simp [isNonterminal, kind?, get?, hlt, heq]
  · simp [isNonterminal, kind?, get?, size]

end SymbolTable

namespace Grammar

variable {g : Grammar}

namespace Valid

lemma rule_id (hg : g.Valid) {i : Nat} {r : Rule} (h : g.rules[i]? = some r) : r.id = i := by
  obtain ⟨hi, rfl⟩ := List.getElem?_eq_some_iff.mp h
  simpa [hi] using congrArg (fun l => l[i]?) hg.ids

lemma rule?_id (hg : g.Valid) {r : Rule} (h : r ∈ g.rules) : g.rule? r.id = some r := by
  obtain ⟨i, hi⟩ := List.mem_iff_getElem?.mp h
  rw [hg.rule_id hi]
  exact hi

/-- The accepted symbol is defined by some rule. -/
lemma exists_rule_of_target (hg : g.Valid) {s : SymbolId} (h : g.target = some s) :
    ∃ r ∈ g.rules, r.target = s := by
  rw [hg.accepts_first, Option.map_eq_some_iff] at h
  obtain ⟨r, hr, hs⟩ := h
  exact ⟨r, List.mem_of_head? hr, hs⟩

lemma isNonterminal_target (hg : g.Valid) {s : SymbolId} (h : g.target = some s) :
    g.symbols.isNonterminal s = true := by
  obtain ⟨r, hr, rfl⟩ := hg.exists_rule_of_target h
  exact hg.target_nonterminal r hr

lemma two_le_size (hg : g.Valid) : 2 ≤ g.symbols.size := hg.reserved.length_le

lemma isTerminal_eoi (hg : g.Valid) : g.symbols.isTerminal SymbolId.eoi = true := by
  have heoi : g.symbols.get? SymbolId.eoi = some ⟨.terminal, "$"⟩ :=
    SymbolTable.getElem?_of_prefix hg.reserved rfl
  rw [SymbolTable.isTerminal, SymbolTable.kind?, heoi]
  rfl

lemma isTerminal_epsilon (hg : g.Valid) : g.symbols.isTerminal SymbolId.epsilon = true := by
  have hepsilon : g.symbols.get? SymbolId.epsilon = some ⟨.terminal, "ε"⟩ :=
    SymbolTable.getElem?_of_prefix hg.reserved rfl
  rw [SymbolTable.isTerminal, SymbolTable.kind?, hepsilon]
  rfl

lemma symbol_lt_size (hg : g.Valid) {r : Rule} (hr : r ∈ g.rules) {s : SymbolId}
    (hs : s ∈ r.symbols) : s < g.symbols.size := by
  simpa [SymbolTable.contains] using hg.clause_known r hr s (Rule.mem_clause hs)

/-! ## The operations on grammars -/

lemma empty (name : Option String) : (Grammar.empty name).Valid where
  reserved := List.prefix_rfl
  ids := rfl
  target_nonterminal := by simp [Grammar.empty]
  clause_known := by simp [Grammar.empty]
  clause_ne_nil := by simp [Grammar.empty]
  accepts_first := rfl

/-- Interning more symbols changes nothing for the symbols there are. -/
lemma extend (hg : g.Valid) {symbols : SymbolTable}
    (h : g.symbols.entries <+: symbols.entries) : { g with symbols }.Valid where
  reserved := hg.reserved.trans h
  ids := hg.ids
  target_nonterminal r hr := SymbolTable.isNonterminal_of_prefix h (hg.target_nonterminal r hr)
  clause_known r hr s hs := SymbolTable.contains_of_prefix h (hg.clause_known r hr s hs)
  clause_ne_nil := hg.clause_ne_nil
  accepts_first := hg.accepts_first

lemma terminal (hg : g.Valid) (name : String) : (g.terminal name).2.Valid :=
  hg.extend (SymbolTable.prefix_intern _ _ _)

lemma nonterminal (hg : g.Valid) (name : String) : (g.nonterminal name).2.Valid :=
  hg.extend (SymbolTable.prefix_intern _ _ _)

lemma freshNonterminal (hg : g.Valid) (base : String) : (g.freshNonterminal base).2.Valid :=
  hg.extend (SymbolTable.prefix_intern _ _ _)

/-- Settings leave the number, the target and the clause of a rule alone. -/
lemma foldl_configure (settings : List RuleSetting) (r : Rule) :
    (settings.foldl Rule.configure r).id = r.id ∧
      (settings.foldl Rule.configure r).target = r.target ∧
      (settings.foldl Rule.configure r).clause = r.clause := by
  induction settings generalizing r with
  | nil => exact ⟨rfl, rfl, rfl⟩
  | cons setting settings ih =>
    obtain ⟨hid, htarget, hclause⟩ := ih (r.configure setting)
    rw [List.foldl_cons, hid, htarget, hclause]
    cases setting <;> exact ⟨rfl, rfl, rfl⟩

lemma addRule (hg : g.Valid) {target : SymbolId} {clause : List SymbolId}
    {settings : List RuleSetting} {id : RuleId} {g' : Grammar}
    (h : g.addRule target clause settings = .ok (id, g')) : g'.Valid := by
  rw [Grammar.addRule] at h
  split at h
  case isFalse => simp at h
  case isTrue htarget =>
  split at h
  case h_1 => simp at h
  case h_2 hknown =>
  simp only [Except.ok.injEq, Prod.mk.injEq] at h
  obtain ⟨rfl, rfl⟩ := h
  obtain ⟨hid, htarget', hclause⟩ := foldl_configure settings (Rule.plain g.rules.length target
    (if clause.isEmpty then [SymbolId.epsilon] else clause))
  generalize settings.foldl Rule.configure (Rule.plain g.rules.length target
    (if clause.isEmpty then [SymbolId.epsilon] else clause)) = rule at hid htarget' hclause
  simp only [Rule.plain] at hid htarget' hclause
  -- what every rule has to satisfy is checked for the new one only
  have hmem : ∀ {p : Rule → Prop}, (∀ r ∈ g.rules, p r) → p rule →
      ∀ r ∈ g.rules ++ [rule], p r := by
    intro p hp hrule r hr
    rcases List.mem_append.mp hr with hr | hr
    · exact hp r hr
    · exact List.mem_singleton.mp hr ▸ hrule
  refine ⟨hg.reserved, ?_, hmem hg.target_nonterminal (htarget' ▸ htarget),
    hmem hg.clause_known ?_, hmem hg.clause_ne_nil ?_, ?_⟩
  · rw [List.map_append, hg.ids, List.length_append, List.length_singleton, List.range_succ,
      List.map_singleton, hid]
  · rw [hclause]
    split
    · intro s hs
      rw [List.mem_singleton.mp hs]
      exact decide_eq_true (Nat.lt_of_lt_of_le (by decide) hg.two_le_size)
    · simpa using hknown
  · rw [hclause]
    split
    · exact List.cons_ne_nil _ _
    · next hne => simpa using hne
  · have hhead : (g.rules ++ [rule]).head? = g.rules.head?.or (some rule) := by
      cases g.rules <;> rfl
    show g.target.or (some target) = (g.rules ++ [rule]).head?.map Rule.target
    rw [hhead, hg.accepts_first]
    cases g.rules.head? with
    | none => rw [Option.map_none, Option.none_or, Option.none_or, Option.map_some, htarget']
    | some r => rfl

lemma addAlternatives (hg : g.Valid) (target : SymbolId) (alternatives : List Alternative) :
    (g.addAlternatives target alternatives).1.Valid := by
  induction alternatives generalizing g with
  | nil => exact hg
  | cons a rest ih =>
    rw [Grammar.addAlternatives]
    split
    · exact hg
    · next hadd => exact ih (hg.addRule hadd)

/-- Defining a shorthand keeps a grammar valid, also if one of its rules is refused. -/
lemma define (hg : g.Valid) (name : String) (alternatives : SymbolId → List Alternative) :
    (g.define name alternatives).1.Valid :=
  (hg.freshNonterminal name).addAlternatives _ _

/-- Rules put together from those of a valid grammar are numbered anew. -/
lemma map_id_renumber (rules : List Rule) :
    (renumber rules).map Rule.id = List.range (renumber rules).length := by
  refine List.ext_getElem (by simp) fun i hi hi' => ?_
  simp [renumber]

lemma forall_mem_renumber {p : SymbolId → List SymbolId → Prop} {rules : List Rule}
    (h : ∀ r ∈ rules, p r.target r.clause) : ∀ r ∈ renumber rules, p r.target r.clause := by
  intro r hr
  obtain ⟨i, hi, rfl⟩ := List.mem_mapIdx.mp hr
  exact h rules[i] (List.getElem_mem hi)

lemma acceptRule (hg : g.Valid) {id : RuleId} {g' : Grammar} (h : g.acceptRule id = .ok g') :
    g'.Valid := by
  rw [Grammar.acceptRule] at h
  split at h
  case h_1 => simp at h
  case h_2 rule hrule =>
  dsimp only at h
  split at h
  case isFalse => simp at h
  case isTrue =>
  rw [Except.ok.injEq] at h
  subst h
  -- moving a rule to the front adds none
  have hmem : ∀ r ∈ rule :: g.rules.eraseIdx id, r ∈ g.rules := by
    intro r hr
    rcases List.mem_cons.mp hr with rfl | hr
    · exact List.mem_of_getElem? hrule
    · exact List.mem_of_mem_eraseIdx hr
  exact
    { reserved := hg.reserved
      ids := map_id_renumber _
      target_nonterminal := forall_mem_renumber (p := fun t _ => g.symbols.isNonterminal t = true)
        fun r hr => hg.target_nonterminal r (hmem r hr)
      clause_known := forall_mem_renumber (p := fun _ c => ∀ s ∈ c, g.symbols.contains s = true)
        fun r hr => hg.clause_known r (hmem r hr)
      clause_ne_nil := forall_mem_renumber (p := fun _ c => c ≠ [])
        fun r hr => hg.clause_ne_nil r (hmem r hr)
      accepts_first := by simp [renumber] }

lemma declareLevel (hg : g.Valid) (level : Nat) (symbols : List SymbolId) :
    (g.declareLevel level symbols).Valid :=
  ⟨hg.reserved, hg.ids, hg.target_nonterminal, hg.clause_known, hg.clause_ne_nil, hg.accepts_first⟩

/-- Changes of rules that keep the shape keep the grammar in order. -/
lemma mapRules {f : Rule → Rule} (hg : g.Valid) (hf : Rule.KeepsShape f) :
    (g.mapRules f).Valid where
  reserved := hg.reserved
  ids := by
    rw [Grammar.mapRules, List.map_map, List.length_map, ← hg.ids]
    exact List.map_congr_left fun r _ => hf.id r
  target_nonterminal := List.forall_mem_map.mpr fun r hr => by
    rw [hf.target]
    exact hg.target_nonterminal r hr
  clause_known := List.forall_mem_map.mpr fun r hr => by
    rw [hf.clause]
    exact hg.clause_known r hr
  clause_ne_nil := List.forall_mem_map.mpr fun r hr => by
    rw [hf.clause]
    exact hg.clause_ne_nil r hr
  accepts_first := by
    have htarget : Rule.target ∘ f = Rule.target := funext hf.target
    rw [Grammar.mapRules, List.head?_map, Option.map_map, htarget]
    exact hg.accepts_first

lemma inheritLevels (hg : g.Valid) : g.inheritLevels.Valid :=
  hg.mapRules (keepsShape_inherited g)

/-- The grammar of a fragment is valid if the symbol it is for is known. -/
lemma extract (hg : g.Valid) {s : SymbolId} (hs : g.symbols.contains s = true) :
    (g.extract s).Valid := by
  have hprefix := SymbolTable.prefix_intern g.symbols .nonterminal
    (g.symbols.freshName ("<" ++ g.symbols.name s ++ ">"))
  have hstart := SymbolTable.isNonterminal_intern g.symbols
    (g.symbols.freshName ("<" ++ g.symbols.name s ++ ">"))
  have hbelow : ∀ r ∈ g.rulesBelow s, r ∈ g.rules := fun r hr => (List.mem_filter.mp hr).1
  exact
    { reserved := hg.reserved.trans hprefix
      ids := map_id_renumber _
      target_nonterminal := by
        refine forall_mem_renumber (p := fun t _ => SymbolTable.isNonterminal _ t = true) ?_
        refine List.forall_mem_cons.mpr ⟨hstart, fun r hr => ?_⟩
        exact SymbolTable.isNonterminal_of_prefix hprefix
          (hg.target_nonterminal r (hbelow r hr))
      clause_known := by
        refine forall_mem_renumber (p := fun _ c => ∀ s ∈ c, SymbolTable.contains _ s = true) ?_
        refine List.forall_mem_cons.mpr ⟨?_, fun r hr t ht => ?_⟩
        · intro t ht
          rw [List.mem_singleton.mp ht]
          exact SymbolTable.contains_of_prefix hprefix hs
        · exact SymbolTable.contains_of_prefix hprefix (hg.clause_known r (hbelow r hr) t ht)
      clause_ne_nil := by
        refine forall_mem_renumber (p := fun _ c => c ≠ []) ?_
        exact List.forall_mem_cons.mpr ⟨List.cons_ne_nil _ _, fun r hr =>
          hg.clause_ne_nil r (hbelow r hr)⟩
      accepts_first := by simp [Grammar.extract, renumber, Rule.plain] }

/-- The search for a fragment may move a rule of the grammar to the front. -/
lemma fragment (hg : g.Valid) (s : SymbolId) : (g.fragment s).1.Valid := by
  have hlevels := hg.inheritLevels
  rw [Grammar.fragment]
  split
  · exact hlevels
  · split
    · next haccept => exact hlevels.acceptRule haccept
    · exact hlevels
  · exact hlevels

lemma resolve (hg : g.Valid) {s : SymbolId} {f : Fragment} (h : (g.fragment s).2 = .ok f) :
    ((g.fragment s).1.resolve f).Valid := by
  cases f with
  | whole => exact hg.fragment s
  | part g' =>
    have hlevels := hg.inheritLevels
    rw [Grammar.fragment] at h
    split at h
    · cases h
    · split at h <;> cases h
    · next hne _ =>
      cases h
      obtain ⟨r, hr⟩ := List.exists_mem_of_ne_nil _ hne
      obtain ⟨hmem, rfl⟩ := mem_rulesOf.mp hr
      have hlt := SymbolTable.lt_size_of_isNonterminal (hlevels.target_nonterminal r hmem)
      exact hlevels.extract (decide_eq_true hlt)

end Valid

end Grammar

end ShiftReduce
