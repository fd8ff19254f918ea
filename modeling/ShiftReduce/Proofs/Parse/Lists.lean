import ShiftReduce.Proofs.Grammar.Shorthand
import ShiftReduce.Proofs.Parse.Callback
import ShiftReduce.Proofs.Table.Listed
/-!
# Lists are flat

The recursive rule of a list makes a chain of nodes, one in front of the other, each with a
separator and an item behind the one it begins with. The callback of the rule takes the items out
of the node in front, in which those of the nodes further down have been put already. So where the
parser without callbacks has a chain of any length there is one node in the end, with the items of
the chain as its children. What stands in a separator is lost.

Main statements: `Grammar.Flattens.of_chain` and `Grammar.Valid.parse_flattens`.
-/

namespace ShiftReduce

variable {g g' : Grammar} {s separator item : SymbolId} {id : RuleId} {tree tree' : Tree}
  {items trees : List Tree}

/-! ## Chains -/

/-- A chain of nodes for a list, the last one on top, and its items from left to right. -/
inductive Tree.Chain (s separator item : SymbolId) : Tree → List Tree → Prop
  | empty (id : RuleId) : Chain s separator item (.node id s []) []
  | one (id : RuleId) {tree : Tree} : tree.symbol = item →
      Chain s separator item (.node id s [tree]) [tree]
  | more (id : RuleId) {front between tree : Tree} {items : List Tree} :
      Chain s separator item front items → between.symbol = separator → tree.symbol = item →
      Chain s separator item (.node id s [front, between, tree]) (items ++ [tree])

lemma Tree.Chain.symbol_items (h : tree.Chain s separator item items) :
    ∀ tree ∈ items, tree.symbol = item := by
  induction h with
  | empty id => exact fun _ h => absurd h List.not_mem_nil
  | one id hitem => exact List.forall_mem_singleton.mpr hitem
  | more id _ _ hitem ih =>
    exact List.forall_mem_append.mpr ⟨ih, List.forall_mem_singleton.mpr hitem⟩

/-- A node is the last of one chain only. -/
lemma Tree.Chain.unique {items' : List Tree} (h : tree.Chain s separator item items)
    (h' : tree.Chain s separator item items') : items = items' := by
  induction h generalizing items' with
  | empty id => cases h'; rfl
  | one id _ => cases h'; rfl
  | more id _ _ _ ih =>
    cases h' with
    | more _ hfront _ _ => rw [ih hfront]

namespace Grammar

/-- All rules of the symbol are those of a list, among them the recursive one. -/
structure IsListOf (g : Grammar) (s separator item : SymbolId) : Prop where
  item_ne : item ≠ s
  recursive : ∃ r ∈ g.rulesOf s, r.symbols = [s, separator, item]
  rules : ∀ r ∈ g.rulesOf s, r.symbols = [] ∧ r.action = none ∨
    r.symbols = [item] ∧ r.action = none ∨
    r.symbols = [s, separator, item] ∧ r.action = some flattenList

/-- Each chain of the first tree that begins outside of separators is one node of the second, with
the items of the chain, from left to right, as its children. All else is the same. -/
inductive Flattens (g : Grammar) : Tree → Tree → Prop
  | leaf (token : Token) : Flattens g (.leaf token) (.leaf token)
  | other {id : RuleId} {s : SymbolId} {trees trees' : List Tree} :
      (∀ separator item, ¬ g.IsListOf s separator item) → List.Forall₂ (Flattens g) trees trees' →
      Flattens g (.node id s trees) (.node id s trees')
  | chain {id : RuleId} {s separator item : SymbolId} {trees items trees' : List Tree} :
      g.IsListOf s separator item → (Tree.node id s trees).Chain s separator item items →
      List.Forall₂ (Flattens g) items trees' →
      Flattens g (.node id s trees) (.node id s trees')

/-! ## Rules of lists -/

/-- The symbol that stands for a list is defined as one. -/
lemma DefinesBy.isListOf {allowEmpty : Bool} (hg : g.Valid)
    (h : g.DefinesBy g' (listAlternatives allowEmpty separator item g.symbols.size))
    (hitem : g.symbols.contains item = true) (hne : item ≠ SymbolId.epsilon) :
    g'.IsListOf g.symbols.size separator item := by
  have hfresh : item ≠ g.symbols.size := Nat.ne_of_lt (of_decide_eq_true hitem)
  have hone : Rule.symbols ((Alternative.plain [item]).rule g.rules.length g.symbols.size) =
      [item] := by
    rw [Alternative.rule_symbols, Alternative.symbols_of_notMem]
    · rfl
    · simpa [Alternative.plain] using hne.symm
  have hmore : Rule.symbols ((Alternative.mk [g.symbols.size, separator, item]
      [.action flattenList]).rule (g.rules.length + 1) g.symbols.size) =
      [g.symbols.size, separator, item] := by
    rw [Alternative.rule_symbols]
    simp [Alternative.symbols, hne]
  have hrules := h.rulesOf_size hg
  rw [listAlternatives, List.cons_append, List.cons_append, List.nil_append, List.mapIdx_cons,
    List.mapIdx_cons, Nat.add_zero, Nat.zero_add] at hrules
  refine ⟨hfresh, ⟨_, ?_, hmore⟩, ?_⟩
  · rw [hrules]
    exact List.mem_cons_of_mem _ List.mem_cons_self
  · rw [hrules]
    refine List.forall_mem_cons.mpr ⟨.inr (.inl ⟨hone, rfl⟩),
      List.forall_mem_cons.mpr ⟨.inr (.inr ⟨hmore, rfl⟩), ?_⟩⟩
    cases allowEmpty with
    | false => exact fun r hr => absurd hr List.not_mem_nil
    | true => exact List.forall_mem_singleton.mpr (.inl ⟨rfl, rfl⟩)

/-- What a list of known symbols is defined as. -/
lemma Valid.isListOf (hg : g.Valid) {allowEmpty : Bool}
    (hseparator : g.symbols.contains separator = true) (hitem : g.symbols.contains item = true)
    (hne : item ≠ SymbolId.epsilon)
    (h : g.listOf allowEmpty separator item = (g', .ok s)) : g'.IsListOf s separator item := by
  obtain ⟨g'', hlist, hdefines⟩ := exists_listOf allowEmpty hseparator hitem
  cases h.symm.trans hlist
  exact hdefines.isListOf hg hitem hne

/-- Rules of other symbols do not matter. -/
lemma IsListOf.addRule (h : g.IsListOf s separator item) {target : SymbolId}
    {clause : List SymbolId} {settings : List RuleSetting}
    (hadd : g.addRule target clause settings = .ok (id, g')) (hne : target ≠ s) :
    g'.IsListOf s separator item := by
  have hrules : g'.rulesOf s = g.rulesOf s := by
    rw [Grammar.addRule] at hadd
    split at hadd
    · split at hadd
      · cases hadd
      · cases hadd
        have hnew : ([(Alternative.mk clause settings).rule g.rules.length target].filter
            fun r => r.target == s) = [] := by
          simp [hne]
        exact (List.filter_append _ _).trans ((congrArg _ hnew).trans (List.append_nil _))
    · cases hadd
  exact ⟨h.item_ne, hrules ▸ h.recursive, hrules ▸ h.rules⟩

/-! ## What the callback makes of a chain -/

lemma handle_of_rule {r : Rule} (hr : g.rule? id = some r) (s : SymbolId) (trees : List Tree) :
    g.handle ⟨id, s, trees⟩ = match r.action with
      | some action => action ⟨id, s, trees⟩
      | none => ⟨id, s, trees⟩ := by
  cases haction : r.action <;> simp only [handle, hr, Option.bind_some, haction]

/-- The tree is a chain, and what is rebuilt of it is one node with the rebuilt items. -/
def FlattensTo (g : Grammar) (s separator item : SymbolId) (tree : Tree) : Prop :=
  ∃ id items, tree.Chain s separator item items ∧
    tree.rebuild g.handle = .node id s (items.map (Tree.rebuild g.handle)) ∧
    ∀ tree ∈ items, g.Flattens tree (tree.rebuild g.handle)

/-- A node for a list prolongs the chain that it begins with by its item. -/
lemma IsListOf.flattensTo (h : g.IsListOf s separator item) {r : Rule} (hr : g.rule? id = some r)
    (htarget : r.target = s) (hsymbols : trees.map Tree.symbol = r.symbols)
    (htrees : ∀ tree ∈ trees, g.Flattens tree (tree.rebuild g.handle))
    (hchains : ∀ tree ∈ trees, tree.symbol = s → g.FlattensTo s separator item tree) :
    ∃ items, (Tree.node id s trees).Chain s separator item items ∧
      (Tree.node id s trees).rebuild g.handle = .node id s (items.map (Tree.rebuild g.handle)) ∧
      ∀ tree ∈ items, g.Flattens tree (tree.rebuild g.handle) := by
  have hmem : r ∈ g.rulesOf s := mem_rulesOf.mpr ⟨List.mem_of_getElem? hr, htarget⟩
  rw [Tree.rebuild, handle_of_rule hr, Tree.rebuildAll_eq_map]
  obtain ⟨hrule, haction⟩ | ⟨hrule, haction⟩ | ⟨hrule, haction⟩ := h.rules r hmem
  all_goals rw [hrule] at hsymbols; rw [haction]
  · obtain rfl := List.map_eq_nil_iff.mp hsymbols
    exact ⟨[], .empty id, rfl, fun _ h => absurd h List.not_mem_nil⟩
  · obtain ⟨tree, rfl, hitem⟩ := List.map_eq_singleton_iff.mp hsymbols
    exact ⟨[tree], .one id hitem, rfl, htrees⟩
  · obtain ⟨front, rest, rfl, hfront, hrest⟩ := List.map_eq_cons_iff.mp hsymbols
    obtain ⟨between, rest, rfl, hbetween, hrest⟩ := List.map_eq_cons_iff.mp hrest
    obtain ⟨tree, rfl, hitem⟩ := List.map_eq_singleton_iff.mp hrest
    obtain ⟨id', items, hchain, hrebuild, hitems⟩ := hchains front List.mem_cons_self hfront
    refine ⟨items ++ [tree], .more id hchain hbetween hitem, ?_, ?_⟩
    · -- the node in front has its items already, and the separator is neither first nor last
      rw [List.map_cons, hrebuild, List.map_append]
      rfl
    · exact List.forall_mem_append.mpr ⟨hitems, List.forall_mem_singleton.mpr
        (htrees tree (by simp))⟩

lemma Flattens.rebuilt_chain (h : g.IsListOf s separator item)
    (hchain : (Tree.node id s trees).Chain s separator item items)
    (hrebuild : (Tree.node id s trees).rebuild g.handle =
      .node id s (items.map (Tree.rebuild g.handle)))
    (hitems : ∀ tree ∈ items, g.Flattens tree (tree.rebuild g.handle)) :
    g.Flattens (.node id s trees) ((Tree.node id s trees).rebuild g.handle) := by
  rw [hrebuild]
  exact .chain h hchain (List.forall₂_map_right_iff.mpr (List.forall₂_same.mpr hitems))

/-- Rebuilding a derivation tree flattens it, if there are no callbacks but those of lists. -/
lemma IsDerivation.flattens (hg : g.Valid)
    (hactions : ∀ r ∈ g.rules, r.action = none ∨
      ∃ separator item, g.IsListOf r.target separator item) (h : g.IsDerivation tree) :
    g.Flattens tree (tree.rebuild g.handle) ∧
      ∀ s separator item, g.IsListOf s separator item → tree.symbol = s →
        g.FlattensTo s separator item tree := by
  induction h with
  | @leaf token hterminal =>
    refine ⟨.leaf token, fun s separator item hlist hs => ?_⟩
    -- a list has rules, and a terminal has none
    obtain ⟨r, hr, -⟩ := hlist.recursive
    obtain ⟨hr, htarget⟩ := mem_rulesOf.mp hr
    have hne := SymbolTable.ne_of_kinds (hg.target_nonterminal r hr) hterminal
    exact absurd (htarget.trans hs.symm) hne
  | @node id r trees hr hsymbols _ ih =>
    have hchain : ∀ separator item, g.IsListOf r.target separator item → ∃ items,
        (Tree.node id r.target trees).Chain r.target separator item items ∧
        (Tree.node id r.target trees).rebuild g.handle =
          .node id r.target (items.map (Tree.rebuild g.handle)) ∧
        ∀ tree ∈ items, g.Flattens tree (tree.rebuild g.handle) := fun separator item hlist =>
      hlist.flattensTo hr rfl hsymbols (fun tree htree => (ih tree htree).1)
        fun tree htree => (ih tree htree).2 _ separator item hlist
    refine ⟨?_, fun s separator item hlist hs => ?_⟩
    · by_cases hlist : ∃ separator item, g.IsListOf r.target separator item
      · obtain ⟨separator, item, hlist⟩ := hlist
        obtain ⟨items, hitems, hrebuild, hflattens⟩ := hchain separator item hlist
        exact .rebuilt_chain hlist hitems hrebuild hflattens
      · have haction := (hactions r (List.mem_of_getElem? hr)).resolve_right hlist
        rw [Tree.rebuild, handle_of_rule hr, haction, Tree.rebuildAll_eq_map]
        exact .other (fun separator item h => hlist ⟨separator, item, h⟩)
          (List.forall₂_map_right_iff.mpr (List.forall₂_same.mpr fun tree htree =>
            (ih tree htree).1))
    · cases hs
      exact ⟨id, hchain separator item hlist⟩

/-! ## What becomes of a chain -/

/-- A symbol is a list of one thing only. -/
lemma IsListOf.unique {separator' item' : SymbolId} (h : g.IsListOf s separator item)
    (h' : g.IsListOf s separator' item') : separator' = separator ∧ item' = item := by
  obtain ⟨r, hr, hsymbols⟩ := h'.recursive
  obtain ⟨hrule, -⟩ | ⟨hrule, -⟩ | ⟨hrule, -⟩ := h.rules r hr
  all_goals
    rw [hsymbols] at hrule
    simp at hrule
  exact hrule

lemma Flattens.symbol_eq (h : g.Flattens tree tree') : tree'.symbol = tree.symbol := by
  cases h <;> rfl

/-- In place of a chain there is one node, with as many children as the chain has items. Each of
them is an item of the chain with its own chains flattened, so none is a separator's or a list's. -/
theorem Flattens.of_chain (h : g.Flattens (.node id s trees) tree')
    (hlist : g.IsListOf s separator item)
    (hchain : (Tree.node id s trees).Chain s separator item items) :
    ∃ trees', tree' = .node id s trees' ∧ List.Forall₂ g.Flattens items trees' ∧
      trees'.length = items.length ∧ ∀ tree ∈ trees', tree.symbol = item ∧ tree.symbol ≠ s := by
  cases h with
  | other hnone => exact absurd hlist (hnone separator item)
  | @chain _ _ _ _ _ items' trees' hlist' hchain' hitems =>
    obtain ⟨rfl, rfl⟩ := hlist'.unique hlist
    obtain rfl := hchain.unique hchain'
    have hsymbols : items.map Tree.symbol = trees'.map Tree.symbol := by
      rw [← List.forall₂_eq_eq_eq, List.forall₂_map_left_iff, List.forall₂_map_right_iff]
      exact hitems.imp fun _ _ h => h.symbol_eq.symm
    refine ⟨trees', rfl, hitems, hitems.length_eq.symm, fun tree htree => ?_⟩
    obtain ⟨tree₀, htree₀, hsymbol⟩ : ∃ tree₀ ∈ items, tree₀.symbol = tree.symbol :=
      List.mem_map.mp (hsymbols ▸ List.mem_map_of_mem htree)
    rw [← hsymbol, hchain.symbol_items tree₀ htree₀]
    exact ⟨rfl, hlist.item_ne⟩

/-! ## Parsed lists -/

/-- Without callbacks a parser returns derivation trees. -/
lemma Valid.isDerivation_of_run (hg : g.Valid) (hk : g.KeysFit)
    (hactions : ∀ r ∈ g.rules, r.action = none) {p : Parser} (hp : g.parser = .ok p)
    {input : List Lexeme} {fuel : Nat} (h : p.run fuel (.start input) = .ok tree) :
    g.IsDerivation tree := by
  obtain ⟨hgrammar, target, -, hb⟩ := builds_of_parser_eq_ok hg hk hp
  have hnone : ∀ r ∈ p.grammar.rules, r.action = none := by
    rw [hgrammar]
    exact List.forall_mem_map.mpr hactions
  obtain ⟨-, htree⟩ := Parser.run_derived hb hnone (Parser.path_start p target input)
    (Parser.traces_start _ input).toDerived h
  rwa [hgrammar, isDerivation_inheritLevels] at htree

/-- Whatever the parser of a grammar without callbacks but those of lists returns is the derivation
tree that the same parser returns without any, with each chain outside of separators in one node.
Both parsers take the same number of steps, and may take as many. -/
theorem Valid.parse_flattens (hg : g.Valid) (hk : g.KeysFit)
    (hactions : ∀ r ∈ g.rules, r.action = none ∨
      ∃ separator item, g.IsListOf r.target separator item)
    {p : Parser} (hp : g.parser = .ok p) :
    ∃ p₀, (g.mapRules Rule.mute).parser = .ok p₀ ∧
      (∀ tokens, Parser.stepLimit p₀.grammar tokens = Parser.stepLimit p.grammar tokens) ∧
      ∀ input fuel tree, p.run fuel (.start input) = .ok tree →
        ∃ tree₀, p₀.run fuel (.start input) = .ok tree₀ ∧ g.IsDerivation tree₀ ∧
          g.Flattens tree₀ tree := by
  have hp₀ := parser_mute_eq hp
  refine ⟨p.mute, hp₀, Parser.stepLimit_mute _, fun input fuel tree h => ?_⟩
  rw [hg.run_parser hp] at h
  cases htree₀ : p.mute.run fuel (.start input) with
  | error e =>
    rw [htree₀] at h
    cases h
  | ok tree₀ =>
    rw [htree₀] at h
    obtain rfl : tree₀.rebuild g.handle = tree := Except.ok.inj h
    have hderivation : (g.mapRules Rule.mute).IsDerivation tree₀ :=
      (hg.mapRules Rule.keepsShape_mute).isDerivation_of_run (hk.mapRules Rule.keepsShape_mute)
        (List.forall_mem_map.mpr fun _ _ => rfl) hp₀ htree₀
    rw [isDerivation_mapRules Rule.keepsShape_mute] at hderivation
    exact ⟨tree₀, rfl, hderivation, (hderivation.flattens hg hactions).1⟩

/-- A list of `x`, whose separator is a list of `x` in brackets. -/
def bracketed : Grammar where
  name := none
  symbols := ⟨SymbolTable.initial.entries ++ [⟨.terminal, "x"⟩, ⟨.terminal, "["⟩, ⟨.terminal, "]"⟩,
    ⟨.nonterminal, "S"⟩, ⟨.nonterminal, "listOf(x)"⟩]⟩
  rules := [.plain 0 6 [2], { Rule.plain 1 6 [6, 5, 2] with action := some flattenList },
    .plain 2 5 [3, 6, 4]]
  levels := []
  target := some 6

/-- What there is of it before the list is defined. -/
def brackets : Grammar :=
  ((((empty none).terminal "x").2.terminal "[").2.terminal "]").2.nonterminal "S" |>.2

lemma valid_brackets : brackets.Valid :=
  ((((Valid.empty none).terminal "x").terminal "[").terminal "]").nonterminal "S"

lemma listOf_brackets : ∃ g', brackets.listOf false 5 2 = (g', .ok 6) ∧
    g'.addRule 5 [3, 6, 4] [] = .ok (2, bracketed) :=
  ⟨_, rfl, rfl⟩

lemma isListOf_bracketed : bracketed.IsListOf 6 5 2 := by
  obtain ⟨g', hlist, hadd⟩ := listOf_brackets
  exact (valid_brackets.isListOf (by decide) (by decide) (by decide) hlist).addRule hadd (by decide)

lemma actions_bracketed : ∀ r ∈ bracketed.rules, r.action = none ∨
    ∃ separator item, bracketed.IsListOf r.target separator item :=
  List.forall_mem_cons.mpr ⟨.inl rfl, List.forall_mem_cons.mpr ⟨.inr ⟨5, 2, isListOf_bracketed⟩,
    List.forall_mem_singleton.mpr (.inl rfl)⟩⟩

lemma valid_bracketed : bracketed.Valid := ⟨⟨_, rfl⟩, rfl, by decide, by decide, by decide, rfl⟩

lemma keysFit_bracketed : bracketed.KeysFit := by
  rintro target ⟨⟩
  decide

/-- The table of the grammar. -/
def bracketedTable : ActionTable := (bracketed.productions 6).basis.automaton.table bracketed

lemma parser_bracketed : bracketed.parser = .ok ⟨bracketed, bracketedTable⟩ := by
  have hlevels : bracketed.inheritLevels = bracketed :=
    inheritLevels_of_no_levels rfl (by simp [bracketed, Rule.plain])
  rw [parser, hlevels]
  rfl

/-- The tokens of `x [ x ] x`. -/
def bracketedInput : List Lexeme :=
  [.ok ⟨2, "x", 1, 1⟩, .ok ⟨3, "[", 1, 2⟩, .ok ⟨2, "x", 1, 3⟩, .ok ⟨4, "]", 1, 4⟩,
    .ok ⟨2, "x", 1, 5⟩]

/-- Without callbacks the parser returns two nodes for the outer list and one for the inner. -/
lemma parse_mute_bracketed : Parser.parse ⟨bracketed.mapRules Rule.mute, bracketedTable⟩
    bracketedInput = .ok (.node 1 6 [.node 0 6 [.leaf ⟨2, "x", 1, 1⟩], .node 2 5
      [.leaf ⟨3, "[", 1, 2⟩, .node 0 6 [.leaf ⟨2, "x", 1, 3⟩], .leaf ⟨4, "]", 1, 4⟩],
        .leaf ⟨2, "x", 1, 5⟩]) := by
  have hlimit : 11 ≤ Parser.stepLimit (bracketed.mapRules Rule.mute) 5 :=
    Nat.le_trans (by decide : 11 ≤ 16 * (5 + 2)) (Parser.le_stepLimit _ _)
  obtain ⟨fuel, hfuel⟩ := Nat.exists_eq_add_of_le' hlimit
  rw [Parser.parse, bracketedInput]
  simp only [List.length_cons, List.length_nil]
  rw [hfuel]
  rfl

lemma parse_bracketed : Parser.parse ⟨bracketed, bracketedTable⟩ bracketedInput =
    .ok (.node 1 6 [.leaf ⟨2, "x", 1, 1⟩, .leaf ⟨2, "x", 1, 5⟩]) := by
  have hrebuild := Parser.parse_rebuild (p := ⟨bracketed, bracketedTable⟩) valid_bracketed
    bracketedInput
  rw [hrebuild]
  exact (congrArg _ parse_mute_bracketed).trans rfl

theorem parse_flattens_bracketed : bracketed.Valid ∧ bracketed.KeysFit ∧
    (∀ r ∈ bracketed.rules, r.action = none ∨
      ∃ separator item, bracketed.IsListOf r.target separator item) ∧
    ∃ p tree, bracketed.parser = .ok p ∧ p.parse bracketedInput = .ok tree ∧
      ∃ p₀ tree₀, (bracketed.mapRules Rule.mute).parser = .ok p₀ ∧
        p₀.parse bracketedInput = .ok tree₀ ∧ bracketed.IsDerivation tree₀ ∧
          bracketed.Flattens tree₀ tree := by
  obtain ⟨p₀, hp₀, hlimit, hflattens⟩ :=
    valid_bracketed.parse_flattens keysFit_bracketed actions_bracketed parser_bracketed
  obtain ⟨tree₀, htree₀, hderivation, hflat⟩ := hflattens bracketedInput _ _ parse_bracketed
  rw [← hlimit] at htree₀
  exact ⟨valid_bracketed, keysFit_bracketed, actions_bracketed, _, _, parser_bracketed,
    parse_bracketed, p₀, tree₀, hp₀, htree₀, hderivation, hflat⟩

/-! ## Chains that are lost, and separators that stay -/

lemma isListOf_overlisted : overlisted.IsListOf 4 3 2 := by
  have hrules : overlisted.rulesOf 4 =
      [.plain 0 4 [2], { Rule.plain 1 4 [4, 3, 2] with action := some flattenList }] :=
    (hasCrowd_listed 1290748 6653).rulesOf_start
  refine ⟨by decide, ⟨_, hrules ▸ List.mem_cons_of_mem _ List.mem_cons_self, rfl⟩, ?_⟩
  rw [hrules]
  exact List.forall_mem_cons.mpr ⟨.inr (.inl ⟨rfl, rfl⟩),
    List.forall_mem_singleton.mpr (.inr (.inr ⟨rfl, rfl⟩))⟩

/-- The recursive rule is reduced in front of the comma and behind it. -/
lemma parse_mute_listed (n m : Nat) :
    Parser.parse ⟨(listed n m).mapRules Rule.mute, listedTable n m⟩ [.ok ⟨3, ",", 1, 1⟩] =
      .ok (.node 1 4 [.node 1 4 [], .leaf ⟨3, ",", 1, 1⟩]) := by
  have hlimit : 4 ≤ Parser.stepLimit ((listed n m).mapRules Rule.mute) 1 :=
    Parser.four_le_stepLimit _ _
  obtain ⟨fuel, hfuel⟩ := Nat.exists_eq_add_of_le' hlimit
  rw [Parser.parse]
  simp only [List.length_cons, List.length_nil]
  rw [hfuel]
  rfl

lemma parse_overlisted : Parser.parse ⟨overlisted, listedTable 1290748 6653⟩
    [.ok ⟨3, ",", 1, 1⟩] = .ok (.node 1 4 [.leaf ⟨3, ",", 1, 1⟩]) := by
  have hrebuild := Parser.parse_rebuild (p := ⟨overlisted, listedTable 1290748 6653⟩)
    (valid_listed (by decide)) [.ok ⟨3, ",", 1, 1⟩]
  rw [hrebuild]
  exact (congrArg _ (parse_mute_listed _ _)).trans rfl

/-- A chain in a separator is lost with it. Where keys wrap around, a node for a list may have a
separator as its child. -/
theorem unflattened_lists :
    bracketed.Valid ∧ bracketed.KeysFit ∧
      (∃ g', brackets.listOf false 5 2 = (g', .ok 6) ∧
        g'.addRule 5 [3, 6, 4] [] = .ok (2, bracketed)) ∧
      (∃ p p₀, bracketed.parser = .ok p ∧ (bracketed.mapRules Rule.mute).parser = .ok p₀ ∧
        p₀.parse bracketedInput = .ok (.node 1 6 [.node 0 6 [.leaf ⟨2, "x", 1, 1⟩], .node 2 5
          [.leaf ⟨3, "[", 1, 2⟩, .node 0 6 [.leaf ⟨2, "x", 1, 3⟩], .leaf ⟨4, "]", 1, 4⟩],
            .leaf ⟨2, "x", 1, 5⟩]) ∧
        p.parse bracketedInput = .ok (.node 1 6 [.leaf ⟨2, "x", 1, 1⟩, .leaf ⟨2, "x", 1, 5⟩])) ∧
    overlisted.Valid ∧ overlisted.IsListOf 4 3 2 ∧
      (∀ r ∈ overlisted.rules, r.action = none ∨ r.target = 4) ∧
      ∃ p p₀, overlisted.parser = .ok p ∧ (overlisted.mapRules Rule.mute).parser = .ok p₀ ∧
        p₀.parse [.ok ⟨3, ",", 1, 1⟩] = .ok (.node 1 4 [.node 1 4 [], .leaf ⟨3, ",", 1, 1⟩]) ∧
        p.parse [.ok ⟨3, ",", 1, 1⟩] = .ok (.node 1 4 [.leaf ⟨3, ",", 1, 1⟩]) := by
  have hlisted := parser_listed completes_overlisted
  have hactions : ∀ r ∈ overlisted.rules, r.action = none ∨ r.target = 4 :=
    (hasCrowd_listed 1290748 6653).forall_mem (.inr rfl) (.inr rfl) (.inl rfl) (fun _ => .inl rfl)
      (.inl rfl)
  exact ⟨valid_bracketed, keysFit_bracketed, listOf_brackets,
    ⟨_, _, parser_bracketed, parser_mute_eq parser_bracketed, parse_mute_bracketed,
      parse_bracketed⟩,
    valid_listed (by decide), isListOf_overlisted, hactions,
    ⟨_, _, hlisted, parser_mute_eq hlisted, parse_mute_listed _ _, parse_overlisted⟩⟩

end Grammar

end ShiftReduce
