import ShiftReduce.Grammar.Basic
import ShiftReduce.Proofs.Grammar.Valid
import Mathlib.Logic.Relation
/-!
# Derivations of a grammar

A string of symbols is rewritten by replacing the target of a rule by the symbols of the rule. A
derivation tree says the same at once for every symbol of the string that is replaced: each inner
node is made by a rule, with the symbols of the rule at the roots of its subtrees, and the leaves
are terminals. A symbol derives a string of terminals if and only if there is such a tree.
-/

namespace ShiftReduce

namespace Tree

@[simp] lemma symbol_leaf (token : Token) : (leaf token).symbol = token.symbol := rfl

lemma yieldAll_append (xs ys : List Tree) : yieldAll (xs ++ ys) = yieldAll xs ++ yieldAll ys := by
  induction xs with
  | nil => rfl
  | cons x xs ih => rw [List.cons_append, yieldAll, yieldAll, ih, List.append_assoc]

/-- The leaves of a row of trees are those of the trees. -/
lemma mem_yieldAll {forest : List Tree} {token : Token} :
    token ∈ yieldAll forest ↔ ∃ tree ∈ forest, token ∈ tree.yield := by
  induction forest with
  | nil => simp [yieldAll]
  | cons tree forest ih => rw [yieldAll, List.mem_append, ih, List.exists_mem_cons_iff]

lemma leavesFrom_eq (pending : List Tree) (found : List Token) :
    leavesFrom pending found = found.reverse ++ yieldAll pending := by
  fun_induction leavesFrom pending found with
  | case1 found => simp [yieldAll]
  | case2 token pending found ih => simp [ih, yieldAll, yield]
  | case3 rule symbol children pending found ih =>
    rw [ih, yieldAll_append, yieldAll, yield]

/-- The leaves found with a stack are those found by recursion. -/
lemma leaves_eq_yield (tree : Tree) : tree.leaves = tree.yield := by
  rw [leaves, leavesFrom_eq, yieldAll, yieldAll]
  simp

end Tree

namespace Grammar

/-- The tree is a derivation tree of the grammar, for the symbol at its root. -/
inductive IsDerivation (g : Grammar) : Tree → Prop
  | leaf {token : Token} : g.symbols.isTerminal token.symbol = true → IsDerivation g (.leaf token)
  | node {id : RuleId} {r : Rule} {children : List Tree} : g.rule? id = some r →
      children.map Tree.symbol = r.symbols → (∀ child ∈ children, IsDerivation g child) →
      IsDerivation g (.node id r.target children)

/-- One symbol of a string, the target of a rule, is replaced by the symbols of the rule. -/
inductive Rewrites (g : Grammar) : List SymbolId → List SymbolId → Prop
  | expand (before after : List SymbolId) {r : Rule} : r ∈ g.rules →
      Rewrites g (before ++ r.target :: after) (before ++ r.symbols ++ after)

/-- Any number of replacements, one after another. -/
def Derives (g : Grammar) : List SymbolId → List SymbolId → Prop :=
  Relation.ReflTransGen g.Rewrites

variable {g : Grammar} {α α' β β' : List SymbolId} {tree : Tree}

/-- Derivation trees are a matter of the shape of the grammar. -/
lemma isDerivation_mapRules {f : Rule → Rule} (hf : Rule.KeepsShape f) :
    (g.mapRules f).IsDerivation tree ↔ g.IsDerivation tree := by
  constructor
  · intro h
    induction h with
    | leaf hterminal => exact .leaf hterminal
    | node hr hsymbols _ ih =>
      rw [rule?_mapRules, Option.map_eq_some_iff] at hr
      obtain ⟨r, hr, rfl⟩ := hr
      rw [hf.target]
      exact .node hr (hsymbols.trans (hf.symbols r)) ih
  · intro h
    induction h with
    | leaf hterminal => exact .leaf hterminal
    | @node id r children hr hsymbols _ ih =>
      have hr' : (g.mapRules f).rule? id = some (f r) := by
        rw [rule?_mapRules, hr, Option.map_some]
      rw [← hf.target]
      exact .node hr' (hsymbols.trans (hf.symbols r).symm) ih

lemma derives_mapRules {f : Rule → Rule} (hf : Rule.KeepsShape f) :
    (g.mapRules f).Derives α β ↔ g.Derives α β := by
  have hrewrites : (g.mapRules f).Rewrites = g.Rewrites := by
    funext α β
    refine propext ⟨fun h => ?_, fun h => ?_⟩
    · cases h with
      | expand before after hr =>
        obtain ⟨r, hmem, rfl⟩ := List.mem_map.mp hr
        rw [hf.target, hf.symbols]
        exact .expand before after hmem
    · cases h with
      | @expand before after r hr =>
        rw [← hf.target, ← hf.symbols]
        exact .expand before after (List.mem_map_of_mem hr)
  rw [Derives, Derives, hrewrites]

lemma Derives.append (hα : g.Derives α α') (hβ : g.Derives β β') :
    g.Derives (α ++ β) (α' ++ β') := by
  have left : g.Derives (α ++ β) (α' ++ β) := by
    refine Relation.ReflTransGen.lift (r := g.Rewrites) (· ++ β) (fun x y h => ?_) _ _ hα
    cases h with
    | expand before after hr =>
      have := Rewrites.expand before (after ++ β) hr
      simpa only [Function.onFun, List.append_assoc, List.cons_append] using this
  have right : g.Derives (α' ++ β) (α' ++ β') := by
    refine Relation.ReflTransGen.lift (r := g.Rewrites) (α' ++ ·) (fun x y h => ?_) _ _ hβ
    cases h with
    | expand before after hr =>
      have := Rewrites.expand (α' ++ before) after hr
      simpa only [Function.onFun, List.append_assoc] using this
  exact left.trans right

/-- The symbol of a derivation tree derives the leaves of the tree. -/
lemma IsDerivation.derives (h : g.IsDerivation tree) :
    g.Derives [tree.symbol] (tree.yield.map Token.symbol) := by
  induction h with
  | leaf _ => exact .refl
  | @node id r children hr hsymbols _ ih =>
    have hforest : ∀ l : List Tree, (∀ child ∈ l, g.Derives [child.symbol]
        (child.yield.map Token.symbol)) →
        g.Derives (l.map Tree.symbol) ((Tree.yieldAll l).map Token.symbol) := by
      intro l
      induction l with
      | nil => exact fun _ => .refl
      | cons child l ihl =>
        intro hl
        obtain ⟨hchild, hl⟩ := List.forall_mem_cons.mp hl
        rw [List.map_cons, Tree.yieldAll, List.map_append]
        exact hchild.append (ihl hl)
    have hrule := Rewrites.expand [] [] (List.mem_of_getElem? hr)
    rw [List.nil_append, List.append_nil, List.nil_append, ← hsymbols] at hrule
    exact (Relation.ReflTransGen.single hrule).trans (hforest children ih)

/-- The leaves of a derivation tree are terminals. -/
lemma IsDerivation.isTerminal (h : g.IsDerivation tree) :
    ∀ token ∈ tree.yield, g.symbols.isTerminal token.symbol = true := by
  induction h with
  | leaf hterminal => exact List.forall_mem_singleton.mpr hterminal
  | node _ _ _ ih =>
    intro token htoken
    obtain ⟨child, hchild, htoken⟩ := Tree.mem_yieldAll.mp htoken
    exact ih child hchild token htoken

/-- Only a leaf has a terminal at its root. -/
lemma IsDerivation.exists_leaf (hg : g.Valid) (h : g.IsDerivation tree)
    (hsymbol : g.symbols.isTerminal tree.symbol = true) : ∃ token, tree = .leaf token := by
  cases h with
  | leaf _ => exact ⟨_, rfl⟩
  | node hr _ _ =>
    have hnonterminal := hg.target_nonterminal _ (List.mem_of_getElem? hr)
    exact absurd rfl (SymbolTable.ne_of_kinds hnonterminal hsymbol)

/-- A string that derives some tokens has derivation trees for its symbols with these leaves. -/
lemma Derives.exists_forest (hg : g.Valid) {w : List Token}
    (hw : ∀ token ∈ w, g.symbols.isTerminal token.symbol = true)
    (h : g.Derives α (w.map Token.symbol)) :
    ∃ forest : List Tree, forest.map Tree.symbol = α ∧ Tree.yieldAll forest = w ∧
      ∀ tree ∈ forest, g.IsDerivation tree := by
  induction h using Relation.ReflTransGen.head_induction_on with
  | refl =>
    refine ⟨w.map .leaf, by simp [Function.comp_def, Tree.symbol], ?_, ?_⟩
    · clear hw
      induction w with
      | nil => rfl
      | cons token w ih => rw [List.map_cons, Tree.yieldAll, ih, Tree.yield, List.singleton_append]
    · intro tree htree
      obtain ⟨token, htoken, rfl⟩ := List.mem_map.mp htree
      exact .leaf (hw token htoken)
  | head hstep _ ih =>
    obtain ⟨forest, hsymbols, hyield, hforest⟩ := ih
    cases hstep with
    | @expand before after r hr =>
      obtain ⟨front, last, rfl, hfront, hlast⟩ := List.map_eq_append_iff.mp hsymbols
      obtain ⟨first, middle, rfl, hfirst, hmiddle⟩ := List.map_eq_append_iff.mp hfront
      -- the trees for what replaced the symbol become the children of a node
      refine ⟨first ++ .node r.id r.target middle :: last, ?_, ?_, ?_⟩
      · rw [List.map_append, List.map_cons, hfirst, hlast]
        rfl
      · rw [← hyield]
        simp [Tree.yieldAll_append, Tree.yieldAll, Tree.yield]
      · intro tree htree
        simp only [List.mem_append, List.mem_cons] at htree hforest
        rcases htree with htree | rfl | htree
        · exact hforest tree (.inl (.inl htree))
        · exact .node (hg.rule?_id hr) hmiddle fun child hchild =>
            hforest child (.inl (.inr hchild))
        · exact hforest tree (.inr htree)

/-- A symbol derives some tokens if and only if they are the leaves of a derivation tree for it. -/
lemma derives_iff_exists_tree (hg : g.Valid) {s : SymbolId} {w : List Token}
    (hw : ∀ token ∈ w, g.symbols.isTerminal token.symbol = true) :
    g.Derives [s] (w.map Token.symbol) ↔
      ∃ tree, g.IsDerivation tree ∧ tree.symbol = s ∧ tree.yield = w := by
  constructor
  · intro h
    obtain ⟨forest, hsymbols, hyield, hforest⟩ := h.exists_forest hg hw
    obtain ⟨tree, rfl⟩ := List.length_eq_one_iff.mp
      (by simpa using congrArg List.length hsymbols : forest.length = 1)
    refine ⟨tree, hforest tree List.mem_cons_self, by simpa using hsymbols, ?_⟩
    simpa [Tree.yieldAll] using hyield
  · rintro ⟨tree, htree, rfl, rfl⟩
    exact htree.derives

end Grammar

end ShiftReduce
