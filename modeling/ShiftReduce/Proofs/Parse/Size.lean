import ShiftReduce.Parse.Basic
import ShiftReduce.Proofs.Automaton.Item
import ShiftReduce.Proofs.Grammar.Derivation
import Mathlib.Data.Finset.Card
import Mathlib.Tactic.Linarith
import Mathlib.Tactic.Ring
/-!
# The size of derivation trees without repetition

Call a derivation tree sparing if no symbol is repeated on the way down where the leaves stay the
same. Its branches without leaves are no higher than there are symbols, and on the way down to a
leaf only so many nodes can follow one another before the leaves are shared out among two subtrees.
This bounds its size. A derivation tree that is smallest for its symbol and its leaves is sparing:
of two subtrees with one symbol and the same leaves the inner one could stand for the outer one. So
the steps allowed for a parse are more than enough to rebuild it.

Main statements: `Grammar.Sparing.size_add_le` and `Grammar.Smallest.size_lt_stepLimit`.
-/

namespace ShiftReduce

namespace Tree

lemma yieldAll_middle {child : Tree} {l₁ l₂ : List Tree} :
    yieldAll (l₁ ++ child :: l₂) = yieldAll l₁ ++ child.yield ++ yieldAll l₂ := by
  rw [yieldAll_append, yieldAll, List.append_assoc]

lemma sizeAll_middle {child : Tree} {l₁ l₂ : List Tree} :
    sizeAll (l₁ ++ child :: l₂) = sizeAll l₁ + child.size + sizeAll l₂ := by
  rw [sizeAll_append, sizeAll, Nat.add_assoc]

lemma size_lt_of_mem (id : RuleId) (s : SymbolId) {children : List Tree} {child : Tree}
    (h : child ∈ children) : child.size < (Tree.node id s children).size := by
  obtain ⟨l₁, l₂, rfl⟩ := List.append_of_mem h
  rw [size, sizeAll_middle]
  omega

/-- The number of trees of a row that have leaves. -/
def leafyCount (forest : List Tree) : Nat := forest.countP fun tree => !tree.yield.isEmpty

lemma yieldAll_eq_nil_iff {forest : List Tree} :
    yieldAll forest = [] ↔ ∀ tree ∈ forest, tree.yield = [] := by
  induction forest with
  | nil => simp [yieldAll]
  | cons tree forest ih => simp [yieldAll, ih]

/-- In a row with leaves one tree has all of them, or at least two have some. -/
lemma middle_or_two_le_leafyCount {forest : List Tree} (h : yieldAll forest ≠ []) :
    (∃ l₁ tree l₂, forest = l₁ ++ tree :: l₂ ∧ yieldAll l₁ = [] ∧ yieldAll l₂ = []) ∨
      2 ≤ leafyCount forest := by
  induction forest with
  | nil => exact absurd rfl h
  | cons tree forest ih =>
    by_cases htree : tree.yield = []
    · rw [yieldAll, htree, List.nil_append] at h
      rcases ih h with ⟨l₁, middle, l₂, rfl, h₁, h₂⟩ | htwo
      · exact .inl ⟨tree :: l₁, middle, l₂, rfl, by rw [yieldAll, htree, h₁, List.nil_append], h₂⟩
      · exact .inr (by simpa [leafyCount, htree] using htwo)
    · by_cases hforest : yieldAll forest = []
      · exact .inl ⟨[], tree, forest, rfl, rfl, hforest⟩
      · right
        rw [yieldAll_eq_nil_iff] at hforest
        push Not at hforest
        obtain ⟨other, hother, hne⟩ := hforest
        have hpos : 0 < leafyCount forest :=
          List.countP_pos_iff.mpr ⟨other, hother, by simpa using hne⟩
        have hcons : leafyCount (tree :: forest) = leafyCount forest + 1 := by
          rw [leafyCount, List.countP_cons_of_pos (by simpa using htree), leafyCount]
        omega

end Tree

namespace Grammar

/-- The symbols that rules define. -/
def defined (g : Grammar) : Finset SymbolId := (g.rules.map Rule.target).toFinset

/-- The length of the longest clause. -/
def longest (g : Grammar) : Nat := g.rules.foldl (fun n r => max n r.arity) 0

/-- A derivation tree in which no symbol is repeated on the way down where the leaves stay the same,
and of which no root with all its leaves has one of these symbols. -/
inductive Sparing (g : Grammar) : Finset SymbolId → Tree → Prop
  | leaf {symbols : Finset SymbolId} {token : Token} : Sparing g symbols (.leaf token)
  | node {symbols : Finset SymbolId} {id : RuleId} {s : SymbolId} {children : List Tree} :
      s ∈ g.defined → s ∉ symbols → children.length ≤ g.longest →
      (∀ child ∈ children, Sparing g ∅ child) →
      (∀ child ∈ children, child.yield = Tree.yieldAll children →
        Sparing g (insert s symbols) child) →
      Sparing g symbols (.node id s children)

variable {g : Grammar} {tree child : Tree} {id : RuleId} {s : SymbolId} {children : List Tree}
  {symbols : Finset SymbolId}

lemma arity_le_longest {r : Rule} (h : r ∈ g.rules) : r.arity ≤ g.longest :=
  (le_foldl_max Rule.arity g.rules 0).2 r h

lemma card_defined_le (g : Grammar) : g.defined.card ≤ g.rules.length :=
  (List.toFinset_card_le _).trans_eq (List.length_map _)

/-- The children of a node of a derivation tree. -/
lemma IsDerivation.node_inv (h : g.IsDerivation (.node id s children)) :
    s ∈ g.defined ∧ children.length ≤ g.longest ∧ ∀ child ∈ children, g.IsDerivation child := by
  cases h with
  | @node _ r _ hr hsymbols hchildren =>
    have hmem := List.mem_of_getElem? hr
    refine ⟨List.mem_toFinset.mpr (List.mem_map_of_mem hmem), ?_, hchildren⟩
    have hlength : children.length = r.arity := by rw [Rule.arity, ← hsymbols, List.length_map]
    exact hlength ▸ arity_le_longest hmem

/-- One more symbol that the root may not have. -/
lemma card_sdiff_insert (hdefined : s ∈ g.defined) (hnot : s ∉ symbols) :
    (g.defined \ symbols).card = (g.defined \ insert s symbols).card + 1 := by
  rw [Finset.sdiff_insert, Finset.card_erase_add_one]
  exact Finset.mem_sdiff.mpr ⟨hdefined, hnot⟩

/-! ## Trees without leaves -/

/-- The bound on trees without leaves. -/
def bareBound (g : Grammar) : Nat := (g.longest + 1) ^ g.defined.card

lemma sizeAll_le {forest : List Tree} {bound : Nat} (h : ∀ tree ∈ forest, tree.size ≤ bound) :
    Tree.sizeAll forest ≤ forest.length * bound := by
  induction forest with
  | nil => simp [Tree.sizeAll]
  | cons tree forest ih =>
    obtain ⟨htree, hforest⟩ := List.forall_mem_cons.mp h
    have := ih hforest
    rw [Tree.sizeAll, List.length_cons, Nat.succ_mul]
    omega

/-- A tree without leaves is no higher than there are symbols left for its root. -/
lemma Sparing.size_le_of_yield_eq_nil (h : g.Sparing symbols tree) (hsymbols : symbols ⊆ g.defined)
    (hyield : tree.yield = []) : tree.size ≤ (g.longest + 1) ^ (g.defined \ symbols).card := by
  induction h with
  | leaf => cases hyield
  | @node symbols id s children hdefined hnot hlength _ _ _ ih =>
    rw [Tree.yield] at hyield
    -- a child has the same leaves, none, so its symbol is not that of the node either
    have hcard := card_sdiff_insert hdefined hnot
    have hbound : ∀ child ∈ children,
        child.size ≤ (g.longest + 1) ^ (g.defined \ insert s symbols).card := by
      intro child hchild
      have hbare := Tree.yieldAll_eq_nil_iff.mp hyield child hchild
      exact ih child hchild (hbare.trans hyield.symm) (Finset.insert_subset hdefined hsymbols) hbare
    have hsize := sizeAll_le hbound
    have hpos : 0 < (g.longest + 1) ^ (g.defined \ insert s symbols).card :=
      Nat.pow_pos (Nat.succ_pos _)
    have hmul := Nat.mul_le_mul_right
      ((g.longest + 1) ^ (g.defined \ insert s symbols).card) hlength
    rw [Tree.size, hcard, Nat.pow_succ, Nat.mul_comm, Nat.succ_mul]
    omega

lemma Sparing.size_le_bareBound (h : g.Sparing ∅ tree) (hyield : tree.yield = []) :
    tree.size ≤ g.bareBound := by
  have := h.size_le_of_yield_eq_nil (Finset.empty_subset _) hyield
  rwa [Finset.sdiff_empty] at this

/-! ## Trees with leaves -/

/-- The bound on a node with its children without leaves. -/
def nodeBound (g : Grammar) : Nat := 1 + g.longest * g.bareBound

/-- The bound on the nodes that follow one another with the same leaves. -/
def chainBound (g : Grammar) : Nat := g.nodeBound * (g.defined.card + 1)

/-- The size of a row of trees, of which each with leaves falls short of its bound by that of a
chain. -/
lemma sizeAll_add_le {forest : List Tree}
    (hbare : ∀ tree ∈ forest, tree.yield = [] → tree.size ≤ g.bareBound)
    (hleafy : ∀ tree ∈ forest, tree.yield ≠ [] →
      tree.size + g.chainBound ≤ 2 * g.chainBound * tree.yield.length) :
    Tree.sizeAll forest + g.chainBound * Tree.leafyCount forest ≤
      forest.length * g.bareBound + 2 * g.chainBound * (Tree.yieldAll forest).length := by
  induction forest with
  | nil => simp [Tree.sizeAll, Tree.leafyCount]
  | cons tree forest ih =>
    obtain ⟨hbare₁, hbare⟩ := List.forall_mem_cons.mp hbare
    obtain ⟨hleafy₁, hleafy⟩ := List.forall_mem_cons.mp hleafy
    have ih := ih hbare hleafy
    rw [Tree.sizeAll, Tree.yieldAll, List.length_append, List.length_cons, Nat.mul_add,
      Nat.succ_mul]
    by_cases htree : tree.yield = []
    · have hcount : Tree.leafyCount (tree :: forest) = Tree.leafyCount forest := by
        rw [Tree.leafyCount, List.countP_cons_of_neg (by simp [htree]), Tree.leafyCount]
      have := hbare₁ htree
      rw [hcount, htree, List.length_nil]
      omega
    · have hcount : Tree.leafyCount (tree :: forest) = Tree.leafyCount forest + 1 := by
        rw [Tree.leafyCount, List.countP_cons_of_pos (by simpa using htree), Tree.leafyCount]
      have := hleafy₁ htree
      rw [hcount, Nat.mul_succ]
      omega

/-- A tree with leaves: its bound falls with the symbols that its root may not have. -/
lemma Sparing.size_add_le (h : g.Sparing symbols tree) (hsymbols : symbols ⊆ g.defined)
    (hyield : tree.yield ≠ []) :
    tree.size + 2 * g.chainBound ≤
      2 * g.chainBound * tree.yield.length + g.nodeBound * ((g.defined \ symbols).card + 1) := by
  induction h with
  | @leaf symbols token =>
    have hpos : 0 < g.nodeBound * ((g.defined \ symbols).card + 1) :=
      Nat.mul_pos (by rw [nodeBound]; omega) (Nat.succ_pos _)
    rw [Tree.size, Tree.yield, List.length_singleton]
    omega
  | @node symbols id s children hdefined hnot hlength hfresh _ ihfresh ih =>
    rw [Tree.yield] at hyield
    have hcard := card_sdiff_insert hdefined hnot
    have hbare : ∀ child ∈ children, child.yield = [] → child.size ≤ g.bareBound :=
      fun child hchild => (hfresh child hchild).size_le_bareBound
    have hmul := Nat.mul_le_mul_right g.bareBound hlength
    have hnode : g.nodeBound = 1 + g.longest * g.bareBound := rfl
    -- the bound of the node exceeds that of a child below one more symbol by a node bound
    rw [Tree.size, Tree.yield, hcard]
    rcases Tree.middle_or_two_le_leafyCount hyield with ⟨l₁, child, l₂, rfl, h₁, h₂⟩ | htwo
    · -- one child has all the leaves, and is below one more symbol
      have hmem : child ∈ l₁ ++ child :: l₂ := by simp
      have hall : child.yield = Tree.yieldAll (l₁ ++ child :: l₂) := by
        rw [Tree.yieldAll_middle, h₁, h₂, List.nil_append, List.append_nil]
      have hchild := ih child hmem hall (Finset.insert_subset hdefined hsymbols) (hall ▸ hyield)
      have hsize₁ := sizeAll_le fun tree htree => hbare tree (List.mem_append_left _ htree)
        (Tree.yieldAll_eq_nil_iff.mp h₁ tree htree)
      have hsize₂ := sizeAll_le fun tree htree =>
        hbare tree (List.mem_append_right _ (List.mem_cons_of_mem _ htree))
          (Tree.yieldAll_eq_nil_iff.mp h₂ tree htree)
      rw [← hall, Tree.sizeAll_middle]
      rw [List.length_append, List.length_cons, Nat.add_mul, Nat.succ_mul] at hmul
      rw [Nat.mul_succ g.nodeBound]
      omega
    · -- the leaves are shared out among two children or more
      have hleafy : ∀ child ∈ children, child.yield ≠ [] →
          child.size + g.chainBound ≤ 2 * g.chainBound * child.yield.length := by
        intro child hchild hne
        have hle := ihfresh child hchild (Finset.empty_subset _) hne
        rw [Finset.sdiff_empty] at hle
        have hchain : g.nodeBound * (g.defined.card + 1) = g.chainBound := rfl
        omega
      have hsum := sizeAll_add_le hbare hleafy
      have hcount := Nat.mul_le_mul_left g.chainBound htwo
      rw [Nat.mul_succ g.nodeBound]
      omega

lemma Sparing.size_add_chainBound_le (h : g.Sparing ∅ tree) (hyield : tree.yield ≠ []) :
    tree.size + g.chainBound ≤ 2 * g.chainBound * tree.yield.length := by
  have hle := h.size_add_le (Finset.empty_subset _) hyield
  rw [Finset.sdiff_empty] at hle
  have hchain : g.nodeBound * (g.defined.card + 1) = g.chainBound := rfl
  omega

/-! ## The steps allowed -/

/-- What the steps allowed are counted by. -/
def stepUnit (g : Grammar) : Nat := (g.longest + 2) ^ (g.rules.length + 40)

lemma stepUnit_pos (g : Grammar) : 0 < g.stepUnit := Nat.pow_pos (Nat.succ_pos _)

lemma stepLimit_eq (g : Grammar) (tokens : Nat) :
    Parser.stepLimit g tokens = 16 * (tokens + 2) * (g.rules.length + 2) * g.stepUnit := rfl

lemma longest_mul_bareBound_le (g : Grammar) : (g.longest + 2) * g.bareBound ≤ g.stepUnit := by
  have hbare : g.bareBound ≤ (g.longest + 2) ^ g.rules.length :=
    (Nat.pow_le_pow_left (Nat.le_succ _) _).trans
      (Nat.pow_le_pow_right (Nat.succ_pos _) (card_defined_le g))
  calc (g.longest + 2) * g.bareBound ≤ (g.longest + 2) * (g.longest + 2) ^ g.rules.length :=
      Nat.mul_le_mul_left _ hbare
    _ = (g.longest + 2) ^ (g.rules.length + 1) := by rw [Nat.pow_succ, Nat.mul_comm]
    _ ≤ g.stepUnit := Nat.pow_le_pow_right (Nat.succ_pos _) (by omega)

lemma one_le_bareBound (g : Grammar) : 1 ≤ g.bareBound := Nat.pow_pos (Nat.succ_pos _)

lemma chainBound_le (g : Grammar) : g.chainBound ≤ g.stepUnit * (g.rules.length + 1) := by
  have hunit := longest_mul_bareBound_le g
  have hone := one_le_bareBound g
  have hnode : g.nodeBound ≤ g.stepUnit := by
    rw [Nat.add_mul] at hunit
    rw [nodeBound]
    omega
  exact Nat.mul_le_mul hnode (Nat.succ_le_succ (card_defined_le g))

/-! ## Smallest trees -/

/-- The tree is a derivation tree, and none with the same symbol and the same leaves is smaller. -/
structure Smallest (g : Grammar) (tree : Tree) : Prop where
  derivation : g.IsDerivation tree
  least : ∀ other, g.IsDerivation other → other.symbol = tree.symbol → other.yield = tree.yield →
    tree.size ≤ other.size

/-- Derivation trees with the same leaves for one of these symbols are larger. -/
def Below (g : Grammar) (tree : Tree) (symbols : Finset SymbolId) : Prop :=
  ∀ s ∈ symbols, ∀ other, g.IsDerivation other → other.symbol = s → other.yield = tree.yield →
    tree.size < other.size

lemma exists_smallest (h : g.IsDerivation tree) :
    ∃ least, g.Smallest least ∧ least.symbol = tree.symbol ∧ least.yield = tree.yield := by
  obtain ⟨least, ⟨hleast, hsymbol, hyield⟩, hmin⟩ := (measure Tree.size).wf.has_min
    {other | g.IsDerivation other ∧ other.symbol = tree.symbol ∧ other.yield = tree.yield}
    ⟨tree, h, rfl, rfl⟩
  refine ⟨least, ⟨hleast, fun other hother hs hy => ?_⟩, hsymbol, hyield⟩
  exact Nat.le_of_not_lt (hmin other ⟨hother, hs.trans hsymbol, hy.trans hyield⟩)

/-- A subtree of a smallest tree is smallest. -/
lemma Smallest.of_mem (h : g.Smallest (.node id s children)) (hchild : child ∈ children) :
    g.Smallest child := by
  refine ⟨h.derivation.node_inv.2.2 child hchild, fun other hother hsymbol hyield => ?_⟩
  obtain ⟨l₁, l₂, rfl⟩ := List.append_of_mem hchild
  have hnode : g.IsDerivation (.node id s (l₁ ++ other :: l₂)) := by
    cases h.derivation with
    | @node _ r _ hr hsymbols hchildren =>
      refine .node hr ?_ fun tree htree => ?_
      · rw [← hsymbols]
        simp [hsymbol]
      · rcases List.mem_append.mp htree with htree | htree
        · exact hchildren tree (List.mem_append_left _ htree)
        · rcases List.mem_cons.mp htree with rfl | htree
          · exact hother
          · exact hchildren tree (List.mem_append_right _ (List.mem_cons_of_mem _ htree))
  have hle := h.least _ hnode rfl (by simp [Tree.yield, Tree.yieldAll_middle, hyield])
  rw [Tree.size, Tree.size, Tree.sizeAll_middle, Tree.sizeAll_middle] at hle
  omega

lemma Below.not_mem (h : g.Below tree symbols) (htree : g.IsDerivation tree) :
    tree.symbol ∉ symbols := fun hmem =>
  absurd (h _ hmem tree htree rfl rfl) (Nat.lt_irrefl _)

/-- Where a child has all the leaves of a node, it is below the symbol of the node too. -/
lemma Below.of_mem (h : g.Below (.node id s children) symbols)
    (hsmallest : g.Smallest (.node id s children)) (hchild : child ∈ children)
    (hyield : child.yield = Tree.yieldAll children) : g.Below child (insert s symbols) := by
  intro s' hs' other hother hsymbol hother'
  have hlt := Tree.size_lt_of_mem id s hchild
  have hnode : other.yield = (Tree.node id s children).yield := by
    rw [hother', hyield, Tree.yield]
  rcases Finset.mem_insert.mp hs' with rfl | hs'
  · exact Nat.lt_of_lt_of_le hlt (hsmallest.least other hother hsymbol hnode)
  · exact hlt.trans (h s' hs' other hother hsymbol hnode)

lemma below_empty (g : Grammar) (tree : Tree) : g.Below tree ∅ := by simp [Below]

/-- A smallest tree is sparing: what repeats a symbol with the same leaves could be left out. -/
lemma Smallest.sparing (h : g.Smallest tree) (hbelow : g.Below tree symbols) :
    g.Sparing symbols tree := by
  have hinduction := h.derivation
  induction hinduction generalizing symbols with
  | leaf _ => exact .leaf
  | @node id r children hr hchildren hderivations ih =>
    obtain ⟨hdefined, hlength, -⟩ := h.derivation.node_inv
    exact .node hdefined (hbelow.not_mem h.derivation) hlength
      (fun child hchild => ih child hchild (h.of_mem hchild) (below_empty g child))
      fun child hchild hyield => ih child hchild (h.of_mem hchild) (hbelow.of_mem h hchild hyield)

lemma Smallest.size_le (h : g.Smallest tree) :
    tree.size ≤ g.bareBound + 2 * g.chainBound * tree.yield.length := by
  have hsparing := h.sparing (below_empty g tree)
  by_cases hyield : tree.yield = []
  · exact (hsparing.size_le_bareBound hyield).trans (Nat.le_add_right _ _)
  · have hle := hsparing.size_add_chainBound_le hyield
    omega

/-- The steps allowed for its leaves are more than a smallest tree has nodes. -/
lemma Smallest.size_lt_stepLimit (h : g.Smallest tree) :
    tree.size < Parser.stepLimit g tree.yield.length := by
  have hbare : g.bareBound ≤ g.stepUnit :=
    (Nat.le_mul_of_pos_left _ (Nat.succ_pos _)).trans (longest_mul_bareBound_le g)
  have hchain := chainBound_le g
  have hpos := stepUnit_pos g
  rw [stepLimit_eq]
  generalize g.stepUnit = unit at hbare hchain hpos
  calc tree.size ≤ g.bareBound + 2 * g.chainBound * tree.yield.length := h.size_le
    _ ≤ unit + 2 * (unit * (g.rules.length + 1)) * tree.yield.length :=
      Nat.add_le_add hbare (Nat.mul_le_mul_right _ (Nat.mul_le_mul_left 2 hchain))
    _ = unit * (1 + 2 * (g.rules.length + 1) * tree.yield.length) := by ring
    _ < unit * (16 * (tree.yield.length + 2) * (g.rules.length + 2)) := by
      refine Nat.mul_lt_mul_of_pos_left ?_ hpos
      nlinarith [Nat.zero_le (g.rules.length * tree.yield.length)]
    _ = 16 * (tree.yield.length + 2) * (g.rules.length + 2) * unit := by ring

end Grammar

end ShiftReduce
