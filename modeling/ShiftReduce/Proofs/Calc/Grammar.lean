import ShiftReduce.Calc.Grammar
import ShiftReduce.Proofs.Grammar.Derivation
/-!
# Expressions

The grammar of arithmetic written out with the numbers of its symbols and rules, and the derivation
trees it has. An expression is a number or a name, two operands with an operator between them, a
negated operand, an expression in brackets, or a name with arguments in brackets. The arguments are
a list to which one expression after another is added behind a comma. It may begin empty, so that a
comma may come first.

Main statement: `Calc.isExpression_iff`.
-/

namespace ShiftReduce

namespace Calc

/-! ## The grammar -/

/-- The symbol of expressions. -/
abbrev expression : SymbolId := 2

/-- The symbol of lists of arguments. -/
abbrev arguments : SymbolId := 14

/-- The grammar of arithmetic, written out. -/
def arithmetic : Grammar where
  name := some "arithmetic"
  symbols := ⟨SymbolTable.initial.entries ++ [⟨.nonterminal, "E"⟩, ⟨.terminal, "+"⟩,
    ⟨.terminal, "-"⟩, ⟨.terminal, "*"⟩, ⟨.terminal, "/"⟩, ⟨.terminal, "%"⟩, ⟨.terminal, "^"⟩,
    ⟨.terminal, "("⟩, ⟨.terminal, ")"⟩, ⟨.terminal, ","⟩, ⟨.terminal, "num"⟩, ⟨.terminal, "id"⟩,
    ⟨.nonterminal, "listOf(E)"⟩]⟩
  rules := [
    { Rule.plain 0 expression [expression, 3, expression] with arbitration := .reduce },
    { Rule.plain 1 expression [expression, 4, expression] with arbitration := .reduce },
    { Rule.plain 2 expression [expression, 5, expression] with arbitration := .reduce },
    { Rule.plain 3 expression [expression, 6, expression] with arbitration := .reduce },
    { Rule.plain 4 expression [expression, 7, expression] with arbitration := .reduce },
    .plain 5 expression [expression, 8, expression],
    { Rule.plain 6 expression [4, expression] with
      name := some "negation", explicitLevel := some 3 },
    { Rule.plain 7 expression [9, expression, 10] with action := some dropLeaves },
    .plain 8 arguments [expression],
    { Rule.plain 9 arguments [arguments, 11, expression] with action := some flattenList },
    .plain 10 arguments [SymbolId.epsilon],
    { Rule.plain 11 expression [13, 9, arguments, 10] with name := some "call" },
    .plain 12 expression [12],
    .plain 13 expression [13]]
  levels := [(3, 1), (4, 1), (5, 2), (6, 2), (7, 2), (8, 4)]
  target := some expression

lemma grammar_eq : grammar = .ok arithmetic := rfl

lemma valid_arithmetic : arithmetic.Valid :=
  ⟨⟨_, rfl⟩, rfl, by decide, by decide, by decide, rfl⟩

/-- No clause mentions the end of input. -/
lemma eoi_notMem_arithmetic : ∀ r ∈ arithmetic.rules, SymbolId.eoi ∉ r.clause := by decide

/-! ## Operators -/

/-- An operator between two operands: the number of its rule, its terminal, and how tight it
binds. -/
structure Operator where
  rule : RuleId
  symbol : SymbolId
  level : Nat
  deriving DecidableEq

/-- The operators `+` and `-`, then `*`, `/` and `%`, which bind tighter, then `^`, which binds
tightest. -/
def operators : List Operator :=
  [⟨0, 3, 1⟩, ⟨1, 4, 1⟩, ⟨2, 5, 2⟩, ⟨3, 6, 2⟩, ⟨4, 7, 2⟩, ⟨5, 8, 4⟩]

/-- The rules for numbers and names, with their terminals. -/
def atoms : List (RuleId × SymbolId) := [(12, 12), (13, 13)]

/-! ## Trees -/

/-- The tree is a list of arguments, which are these trees. -/
inductive IsArguments : Tree → List Tree → Prop
  | empty : IsArguments (.node 10 arguments []) []
  | one (item : Tree) : IsArguments (.node 8 arguments [item]) [item]
  | more {args : Tree} {items : List Tree} {comma : Token} (item : Tree) : IsArguments args items →
      comma.symbol = 11 →
      IsArguments (.node 9 arguments [args, .leaf comma, item]) (items ++ [item])

/-- The tree is an expression. -/
inductive IsExpression : Tree → Prop
  | atom {id : RuleId} {token : Token} : (id, token.symbol) ∈ atoms →
      IsExpression (.node id expression [.leaf token])
  | binary {o : Operator} {token : Token} {left right : Tree} : o ∈ operators →
      token.symbol = o.symbol → IsExpression left → IsExpression right →
      IsExpression (.node o.rule expression [left, .leaf token, right])
  | negation {minus : Token} {operand : Tree} : minus.symbol = 4 → IsExpression operand →
      IsExpression (.node 6 expression [.leaf minus, operand])
  | bracketed {opening closing : Token} {inner : Tree} : opening.symbol = 9 →
      closing.symbol = 10 → IsExpression inner →
      IsExpression (.node 7 expression [.leaf opening, inner, .leaf closing])
  | call {name opening closing : Token} {args : Tree} {items : List Tree} : name.symbol = 13 →
      opening.symbol = 9 → closing.symbol = 10 → IsArguments args items →
      (∀ item ∈ items, IsExpression item) →
      IsExpression (.node 11 expression [.leaf name, .leaf opening, args, .leaf closing])

variable {tree : Tree} {items : List Tree} {r : Rule}

lemma IsExpression.symbol (h : IsExpression tree) : tree.symbol = expression := by
  cases h <;> rfl

lemma IsArguments.symbol (h : IsArguments tree items) : tree.symbol = arguments := by
  cases h <;> rfl

/-! ### Expressions are derivation trees -/

lemma isDerivation_leaf {token : Token} {s : SymbolId} (h : token.symbol = s)
    (hs : arithmetic.symbols.isTerminal s = true) : arithmetic.IsDerivation (.leaf token) :=
  .leaf (h ▸ hs)

lemma isDerivation_node {id : RuleId} {s : SymbolId} {children : List Tree}
    (symbols : List SymbolId)
    (hrule : ∃ r ∈ arithmetic.rules, r.id = id ∧ r.target = s ∧ r.symbols = symbols)
    (hsymbols : children.map Tree.symbol = symbols)
    (hchildren : ∀ child ∈ children, arithmetic.IsDerivation child) :
    arithmetic.IsDerivation (.node id s children) := by
  obtain ⟨r, hr, rfl, rfl, rfl⟩ := hrule
  exact .node (valid_arithmetic.rule?_id hr) hsymbols hchildren

lemma IsArguments.isDerivation (h : IsArguments tree items)
    (hitems : ∀ item ∈ items, item.symbol = expression ∧ arithmetic.IsDerivation item) :
    arithmetic.IsDerivation tree := by
  induction h with
  | empty => exact isDerivation_node [] (by decide) rfl (List.forall_mem_nil _)
  | one item =>
    obtain ⟨hsymbol, hitem⟩ := hitems item List.mem_cons_self
    exact isDerivation_node [expression] (by decide) (by simp [hsymbol])
      (List.forall_mem_singleton.mpr hitem)
  | @more args items comma item hargs hcomma ih =>
    obtain ⟨hitems, hitem⟩ := List.forall_mem_append.mp hitems
    obtain ⟨hsymbol, hitem⟩ := hitem item List.mem_cons_self
    refine isDerivation_node [arguments, 11, expression] (by decide) ?_ ?_
    · simp [hargs.symbol, hsymbol, hcomma]
    · simpa [hitem, isDerivation_leaf hcomma (by decide)] using ih hitems

lemma IsExpression.isDerivation (h : IsExpression tree) : arithmetic.IsDerivation tree := by
  induction h with
  | @atom id token hatom =>
    have hrule : ∀ atom ∈ atoms, (∃ r ∈ arithmetic.rules, r.id = atom.1 ∧ r.target = expression ∧
        r.symbols = [atom.2]) ∧ arithmetic.symbols.isTerminal atom.2 = true := by decide
    obtain ⟨hrule, hterminal⟩ := hrule _ hatom
    exact isDerivation_node _ hrule rfl (List.forall_mem_singleton.mpr (.leaf hterminal))
  | @binary o token left right ho htoken hleft hright ihl ihr =>
    have hrule : ∀ o ∈ operators, (∃ r ∈ arithmetic.rules, r.id = o.rule ∧
        r.target = expression ∧ r.symbols = [expression, o.symbol, expression]) ∧
        arithmetic.symbols.isTerminal o.symbol = true := by decide
    obtain ⟨hrule, hterminal⟩ := hrule o ho
    refine isDerivation_node _ hrule ?_ ?_
    · simp [hleft.symbol, hright.symbol, htoken]
    · simp [ihl, ihr, isDerivation_leaf htoken hterminal]
  | negation hminus hoperand ih =>
    refine isDerivation_node [4, expression] (by decide) ?_ ?_
    · simp [hoperand.symbol, hminus]
    · simp [ih, isDerivation_leaf hminus (by decide)]
  | bracketed hopening hclosing hinner ih =>
    refine isDerivation_node [9, expression, 10] (by decide) ?_ ?_
    · simp [hinner.symbol, hopening, hclosing]
    · simp [ih, isDerivation_leaf hopening (by decide), isDerivation_leaf hclosing (by decide)]
  | call hname hopening hclosing hargs hitems ih =>
    refine isDerivation_node [13, 9, arguments, 10] (by decide) ?_ ?_
    · simp [hargs.symbol, hname, hopening, hclosing]
    · have := hargs.isDerivation fun item hitem => ⟨(hitems item hitem).symbol, ih item hitem⟩
      simp [this, isDerivation_leaf hname (by decide), isDerivation_leaf hopening (by decide),
        isDerivation_leaf hclosing (by decide)]

/-! ### Derivation trees are expressions -/

/-- The rules for expressions, by what they are for. -/
lemma expression_rule : ∀ r ∈ arithmetic.rules, r.target = expression →
    (∃ atom ∈ atoms, r.id = atom.1 ∧ r.symbols = [atom.2]) ∨
    (∃ o ∈ operators, r.id = o.rule ∧ r.symbols = [expression, o.symbol, expression]) ∨
    (r.id = 6 ∧ r.symbols = [4, expression]) ∨ (r.id = 7 ∧ r.symbols = [9, expression, 10]) ∨
    (r.id = 11 ∧ r.symbols = [13, 9, arguments, 10]) := by
  decide

lemma arguments_rule : ∀ r ∈ arithmetic.rules, r.target ≠ expression → r.target = arguments ∧
    ((r.id = 8 ∧ r.symbols = [expression]) ∨
      (r.id = 9 ∧ r.symbols = [arguments, 11, expression]) ∨ (r.id = 10 ∧ r.symbols = [])) := by
  decide

/-- What the derivation trees for expressions and for arguments have to be. -/
def Reads (tree : Tree) : Prop :=
  (tree.symbol = expression → IsExpression tree) ∧
    (tree.symbol = arguments → ∃ items, IsArguments tree items ∧ ∀ item ∈ items, IsExpression item)

section Node

variable {children : List Tree} (hr : r ∈ arithmetic.rules)
  (hsymbols : children.map Tree.symbol = r.symbols)
  (hchildren : ∀ child ∈ children, arithmetic.IsDerivation child)
  (hreads : ∀ child ∈ children, Reads child)

include hchildren in
/-- Where a terminal comes first there is a leaf for it. -/
lemma exists_leaf_cons {s : SymbolId} {symbols : List SymbolId}
    (hs : arithmetic.symbols.isTerminal s = true) (h : children.map Tree.symbol = s :: symbols) :
    ∃ token rest, children = .leaf token :: rest ∧ token.symbol = s ∧
      rest.map Tree.symbol = symbols := by
  obtain ⟨child, rest, rfl, rfl, hrest⟩ := List.map_eq_cons_iff.mp h
  obtain ⟨token, rfl⟩ := (hchildren child List.mem_cons_self).exists_leaf valid_arithmetic hs
  exact ⟨token, rest, rfl, rfl, hrest⟩

include hr hsymbols hchildren hreads

lemma isExpression_node (htarget : r.target = expression) :
    IsExpression (.node r.id expression children) := by
  rcases expression_rule r hr htarget with ⟨atom, hatom, hid, hrule⟩ | ⟨o, ho, hid, hrule⟩ |
    ⟨hid, hrule⟩ | ⟨hid, hrule⟩ | ⟨hid, hrule⟩ <;> rw [hid] <;> rw [hrule] at hsymbols
  · have hterminal : ∀ atom ∈ atoms, arithmetic.symbols.isTerminal atom.2 = true := by decide
    obtain ⟨token, rest, rfl, htoken, hrest⟩ :=
      exists_leaf_cons hchildren (hterminal atom hatom) hsymbols
    rw [List.map_eq_nil_iff.mp hrest]
    exact .atom (htoken ▸ hatom)
  · have hterminal : ∀ o ∈ operators, arithmetic.symbols.isTerminal o.symbol = true := by decide
    obtain ⟨left, rest, rfl, hleft, hrest⟩ := List.map_eq_cons_iff.mp hsymbols
    obtain ⟨token, rest, rfl, htoken, hrest⟩ := exists_leaf_cons
      (List.forall_mem_cons.mp hchildren).2 (hterminal o ho) hrest
    obtain ⟨right, rfl, hright⟩ := List.map_eq_singleton_iff.mp hrest
    exact .binary ho htoken ((hreads left (by simp)).1 hleft) ((hreads right (by simp)).1 hright)
  · obtain ⟨minus, rest, rfl, hminus, hrest⟩ := exists_leaf_cons hchildren (by decide) hsymbols
    obtain ⟨operand, rfl, hoperand⟩ := List.map_eq_singleton_iff.mp hrest
    exact .negation hminus ((hreads operand (by simp)).1 hoperand)
  · obtain ⟨opening, rest, rfl, hopening, hrest⟩ := exists_leaf_cons hchildren (by decide) hsymbols
    obtain ⟨inner, rest, rfl, hinner, hrest⟩ := List.map_eq_cons_iff.mp hrest
    obtain ⟨closing, rest, rfl, hclosing, hrest⟩ := exists_leaf_cons
      (fun child h => hchildren child (by simp [h])) (by decide) hrest
    rw [List.map_eq_nil_iff.mp hrest]
    exact .bracketed hopening hclosing ((hreads inner (by simp)).1 hinner)
  · obtain ⟨name, rest, rfl, hname, hrest⟩ := exists_leaf_cons hchildren (by decide) hsymbols
    obtain ⟨opening, rest, rfl, hopening, hrest⟩ := exists_leaf_cons
      (List.forall_mem_cons.mp hchildren).2 (by decide) hrest
    obtain ⟨args, rest, rfl, hargs, hrest⟩ := List.map_eq_cons_iff.mp hrest
    obtain ⟨closing, rest, rfl, hclosing, hrest⟩ := exists_leaf_cons
      (fun child h => hchildren child (by simp [h])) (by decide) hrest
    rw [List.map_eq_nil_iff.mp hrest]
    obtain ⟨items, hargs, hitems⟩ := (hreads args (by simp)).2 hargs
    exact .call hname hopening hclosing hargs hitems

lemma isArguments_node (htarget : r.target ≠ expression) :
    ∃ items, IsArguments (.node r.id arguments children) items ∧
      ∀ item ∈ items, IsExpression item := by
  obtain ⟨-, ⟨hid, hrule⟩ | ⟨hid, hrule⟩ | ⟨hid, hrule⟩⟩ := arguments_rule r hr htarget <;>
    rw [hid] <;> rw [hrule] at hsymbols
  · obtain ⟨item, rfl, hitem⟩ := List.map_eq_singleton_iff.mp hsymbols
    exact ⟨[item], .one item, List.forall_mem_singleton.mpr ((hreads item (by simp)).1 hitem)⟩
  · obtain ⟨args, rest, rfl, hargs, hrest⟩ := List.map_eq_cons_iff.mp hsymbols
    obtain ⟨comma, rest, rfl, hcomma, hrest⟩ := exists_leaf_cons
      (List.forall_mem_cons.mp hchildren).2 (by decide) hrest
    obtain ⟨item, rfl, hitem⟩ := List.map_eq_singleton_iff.mp hrest
    obtain ⟨items, hargs, hitems⟩ := (hreads args (by simp)).2 hargs
    exact ⟨items ++ [item], .more item hargs hcomma, List.forall_mem_append.mpr
      ⟨hitems, List.forall_mem_singleton.mpr ((hreads item (by simp)).1 hitem)⟩⟩
  · rw [List.map_eq_nil_iff.mp hsymbols]
    exact ⟨[], .empty, List.forall_mem_nil _⟩

end Node

lemma reads_of_isDerivation (h : arithmetic.IsDerivation tree) : Reads tree := by
  induction h with
  | @leaf token hterminal =>
    refine ⟨fun hsymbol => ?_, fun hsymbol => ?_⟩ <;>
    · rw [Tree.symbol_leaf] at hsymbol
      rw [hsymbol] at hterminal
      exact absurd hterminal (by decide)
  | @node id r children hr hsymbols hchildren ih =>
    have hid := valid_arithmetic.rule_id hr
    subst hid
    have hmem := List.mem_of_getElem? hr
    by_cases htarget : r.target = expression
    · rw [htarget]
      exact ⟨fun _ => isExpression_node hmem hsymbols hchildren ih htarget,
        fun (h : expression = arguments) => absurd h (by decide)⟩
    · rw [(arguments_rule r hmem htarget).1]
      exact ⟨fun (h : arguments = expression) => absurd h (by decide),
        fun _ => isArguments_node hmem hsymbols hchildren ih htarget⟩

/-- The expressions are the derivation trees for them. -/
theorem isExpression_iff :
    IsExpression tree ↔ arithmetic.IsDerivation tree ∧ tree.symbol = expression :=
  ⟨fun h => ⟨h.isDerivation, h.symbol⟩, fun h => (reads_of_isDerivation h.1).1 h.2⟩

/-! ### Sizes -/

lemma IsArguments.size_le (h : IsArguments tree items)
    (hitems : ∀ item ∈ items, item.size ≤ 2 * item.yield.length) :
    tree.size ≤ 2 * tree.yield.length + 1 := by
  induction h with
  | empty => simp [Tree.size, Tree.sizeAll, Tree.yield, Tree.yieldAll]
  | one item =>
    have := hitems item List.mem_cons_self
    simp only [Tree.size, Tree.sizeAll, Tree.yield, Tree.yieldAll, List.append_nil]
    omega
  | @more args items comma item _ _ ih =>
    obtain ⟨hitems, hitem⟩ := List.forall_mem_append.mp hitems
    have := hitem item List.mem_cons_self
    have := ih hitems
    simp only [Tree.size, Tree.sizeAll, Tree.yield, Tree.yieldAll, List.append_nil,
      List.length_append, List.length_singleton]
    omega

/-- An expression has at most twice as many nodes as leaves. -/
lemma IsExpression.size_le (h : IsExpression tree) : tree.size ≤ 2 * tree.yield.length := by
  induction h with
  | call _ _ _ hargs _ ih =>
    have := hargs.size_le ih
    simp only [Tree.size, Tree.sizeAll, Tree.yield, Tree.yieldAll, List.append_nil,
      List.length_append, List.length_singleton]
    omega
  | _ =>
    simp only [Tree.size, Tree.sizeAll, Tree.yield, Tree.yieldAll, List.append_nil,
      List.length_append, List.length_singleton]
    omega

end Calc

end ShiftReduce
