import ShiftReduce.Proofs.Grammar.Derivation
import ShiftReduce.Proofs.Grammar.Level
/-!
# Operators with levels and associativities

Numbers and binary operators: a string is a number, or numbers with operators between them. Levels
and associativities say how such a string is to be read. An operator that binds tighter than its
neighbour takes the number between them; of two operators of one level the first takes it if the
level is left-associative, and the second if it is right-associative. A tree that is grouped in this
way exists for every string, and is found by adding one operator and one number after another on the
right.

A grammar of the operators has one rule for the numbers and one for each operator, in any order.

Main statements: `Operators.Rules.isExpression_iff` and `Operators.exists_grouped`.
-/

namespace ShiftReduce

/-- Binary operators between numbers. Operators of one level group to the same side. -/
structure Operators where
  /-- The symbol for numbers and whatever operators make of them. -/
  expression : SymbolId
  number : SymbolId
  /-- The operators. -/
  symbols : List SymbolId
  level : SymbolId → Nat
  associativity : SymbolId → Associativity
  nodup : (number :: symbols).Nodup
  sided : ∀ op ∈ symbols, associativity op = .left ∨ associativity op = .right
  agree : ∀ op ∈ symbols, ∀ op' ∈ symbols, level op = level op' →
    associativity op = associativity op'

/-- The operator of a node with an operator between two operands. -/
def Tree.operator? : Tree → Option SymbolId
  | .node _ _ [_, .leaf token, _] => some token.symbol
  | _ => none

namespace Operators

/-- Of two operators with one operand between them, the first takes it. -/
def First (o : Operators) (op op' : SymbolId) : Prop :=
  o.level op' < o.level op ∨ o.level op' = o.level op ∧ o.associativity op = .left

/-- Of two operators with one operand between them, the second takes it. -/
def Second (o : Operators) (op op' : SymbolId) : Prop :=
  o.level op < o.level op' ∨ o.level op' = o.level op ∧ o.associativity op = .right

/-- The operands of every operator are grouped as levels and associativities want it: an operator in
the left operand binds tighter, or as tight if the level is left-associative, and one in the right
operand binds tighter, or as tight if the level is right-associative. -/
inductive Grouped (o : Operators) : Tree → Prop
  | leaf (token : Token) : Grouped o (.leaf token)
  | node {id : RuleId} {s : SymbolId} {children : List Tree} :
      (∀ child ∈ children, Grouped o child) →
      (∀ left token right, children = [left, .leaf token, right] →
        (∀ op ∈ left.operator?, o.First op token.symbol) ∧
          ∀ op ∈ right.operator?, o.Second token.symbol op) →
      Grouped o (.node id s children)

/-- A number, or numbers with operators between them. -/
def IsChain (o : Operators) (w : List SymbolId) : Prop :=
  ∃ ops : List SymbolId, (∀ op ∈ ops, op ∈ o.symbols) ∧
    w = o.number :: ops.flatMap fun op => [op, o.number]

/-- The grammar has the rules of the operators, and declares their levels. -/
structure Rules (o : Operators) (g : Grammar) : Prop where
  valid : g.Valid
  accepts : g.target = some o.expression
  terminal : ∀ s ∈ o.number :: o.symbols, g.symbols.isTerminal s = true ∧
    s ≠ SymbolId.eoi ∧ s ≠ SymbolId.epsilon
  /-- One rule for the numbers and one for each operator, in any order. -/
  clauses : (g.rules.map Rule.clause).Perm
    ([o.number] :: o.symbols.map fun op => [o.expression, op, o.expression])
  plain : ∀ r ∈ g.rules, r.target = o.expression ∧ r.action = none ∧ r.explicitLevel = none
  arbitration : ∀ r ∈ g.rules, ∀ op, r.clause = [o.expression, op, o.expression] →
    r.arbitration = (o.associativity op).arbitration
  level : ∀ op ∈ o.symbols, g.level? op = some (o.level op)

/-- The level in force of the rule of an operator is that of the operator. -/
def InForce (o : Operators) (g : Grammar) : Prop :=
  ∀ r ∈ g.rules, ∀ op ∈ o.symbols, r.clause = [o.expression, op, o.expression] →
    r.level = o.level op

variable {o : Operators} {g : Grammar} {r r' : Rule} {op op' op'' : SymbolId} {tree : Tree}

/-! ## Which operator takes an operand -/

lemma first_or_second (h : op ∈ o.symbols) (op' : SymbolId) : o.First op op' ∨ o.Second op op' := by
  rcases Nat.lt_trichotomy (o.level op) (o.level op') with hlt | heq | hlt
  · exact .inr (.inl hlt)
  · exact (o.sided op h).imp (fun hl => .inr ⟨heq.symm, hl⟩) fun hr => .inr ⟨heq.symm, hr⟩
  · exact .inl (.inl hlt)

/-- The side to which a level groups is the same for all its operators. -/
lemma not_left_and_right (h : op ∈ o.symbols) (h' : op' ∈ o.symbols)
    (hlevel : o.level op = o.level op') (hleft : o.associativity op = .left)
    (hright : o.associativity op' = .right) : False := by
  have := o.agree op h op' h' hlevel
  rw [hleft, hright] at this
  cases this

/-- The second of two operators takes the operand between them, and what it takes as its own left
operand it takes from the first one too. -/
lemma Second.of_first (h : o.Second op op') (h' : o.First op'' op') (hop : op ∈ o.symbols)
    (hop'' : op'' ∈ o.symbols) : o.Second op op'' := by
  rcases h with hlt | ⟨heq, hright⟩
  · rcases h' with hlt' | ⟨heq', -⟩ <;> exact .inl (by omega)
  · rcases h' with hlt' | ⟨heq', hleft⟩
    · exact .inl (by omega)
    · exact absurd hright fun hr => not_left_and_right hop'' hop (by omega) hleft hr

lemma First.of_second (h : o.First op op') (h' : o.Second op op'') (hop : op ∈ o.symbols) :
    o.First op'' op' := by
  rcases h with hlt | ⟨heq, hleft⟩
  · rcases h' with hlt' | ⟨heq', -⟩ <;> exact .inl (by omega)
  · rcases h' with hlt' | ⟨heq', hright⟩
    · exact .inl (by omega)
    · exact absurd hright fun hr => not_left_and_right hop hop rfl hleft hr

/-! ## The rules of a grammar -/

namespace Rules

variable (hg : o.Rules g)

include hg

lemma clause_cases (hr : r ∈ g.rules) : r.clause = [o.number] ∨
    ∃ op ∈ o.symbols, r.clause = [o.expression, op, o.expression] := by
  have hmem := hg.clauses.mem_iff.mp (List.mem_map_of_mem hr)
  rcases List.mem_cons.mp hmem with hnumber | hop
  · exact .inl hnumber
  · obtain ⟨op, hop, heq⟩ := List.mem_map.mp hop
    exact .inr ⟨op, hop, heq.symm⟩

lemma exists_number_rule : ∃ r ∈ g.rules, r.clause = [o.number] :=
  List.mem_map.mp (hg.clauses.mem_iff.mpr List.mem_cons_self)

lemma exists_operator_rule (hop : op ∈ o.symbols) :
    ∃ r ∈ g.rules, r.clause = [o.expression, op, o.expression] :=
  List.mem_map.mp (hg.clauses.mem_iff.mpr (List.mem_cons_of_mem _ (List.mem_map_of_mem hop)))

/-- No two rules have one clause. -/
lemma eq_of_clause_eq (hr : r ∈ g.rules) (hr' : r' ∈ g.rules) (h : r.clause = r'.clause) :
    r = r' := by
  have hops : (o.symbols.map fun op => [o.expression, op, o.expression]).Nodup :=
    (List.nodup_cons.mp o.nodup).2.map fun op op' heq => by simpa using heq
  have hnodup : (g.rules.map Rule.clause).Nodup := by
    refine hg.clauses.nodup_iff.mpr (List.nodup_cons.mpr ⟨fun hmem => ?_, hops⟩)
    obtain ⟨op, -, heq⟩ := List.mem_map.mp hmem
    simp at heq
  exact List.inj_on_of_nodup_map hnodup hr hr' h

lemma symbols_eq (hr : r ∈ g.rules) : r.symbols = r.clause := by
  have hempty : r.isEmpty = false := by
    rcases hg.clause_cases hr with heq | ⟨op, hop, heq⟩
    · have := (hg.terminal o.number List.mem_cons_self).2.2
      simp [Rule.isEmpty, heq, this]
    · have := (hg.terminal op (List.mem_cons_of_mem _ hop)).2.2
      simp [Rule.isEmpty, heq, this]
  rw [Rule.symbols, hempty]
  rfl

lemma isNonterminal_expression : g.symbols.isNonterminal o.expression = true :=
  hg.valid.isNonterminal_target hg.accepts

lemma isTerminal_expression : g.symbols.isTerminal o.expression = false := by
  rw [← Bool.not_eq_true]
  exact fun hterminal => SymbolTable.ne_of_kinds hg.isNonterminal_expression hterminal rfl

lemma ne_expression_of_isTerminal {s : SymbolId} (hs : g.symbols.isTerminal s = true) :
    s ≠ o.expression :=
  (SymbolTable.ne_of_kinds hg.isNonterminal_expression hs).symm

lemma ne_expression {s : SymbolId} (hs : s ∈ o.number :: o.symbols) : s ≠ o.expression :=
  hg.ne_expression_of_isTerminal (hg.terminal s hs).1

/-- No clause mentions the end of input. -/
lemma eoi_not_mem (hr : r ∈ g.rules) : SymbolId.eoi ∉ r.clause := by
  have hterminals : ∀ s ∈ o.number :: o.symbols, SymbolId.eoi ≠ s := fun s hs =>
    (hg.terminal s hs).2.1.symm
  have hexpression := hg.ne_expression_of_isTerminal hg.valid.isTerminal_eoi
  rcases hg.clause_cases hr with hclause | ⟨op, hop, hclause⟩
  · simp [hclause, hterminals o.number List.mem_cons_self]
  · simp [hclause, hexpression, hterminals op (List.mem_cons_of_mem _ hop)]

/-- Once levels are inherited, those of the operators are in force. -/
lemma inheritLevels : o.Rules g.inheritLevels ∧ o.InForce g.inheritLevels := by
  constructor
  · refine ⟨hg.valid.inheritLevels, hg.accepts, hg.terminal, ?_, ?_, ?_, hg.level⟩
    · have hclauses : g.inheritLevels.rules.map Rule.clause = g.rules.map Rule.clause := by
        rw [Grammar.inheritLevels, List.map_map]
        rfl
      rw [hclauses]
      exact hg.clauses
    · intro r' hr'
      obtain ⟨r, hr, rfl⟩ := List.mem_map.mp hr'
      exact hg.plain r hr
    · intro r' hr'
      obtain ⟨r, hr, rfl⟩ := List.mem_map.mp hr'
      exact hg.arbitration r hr
  · intro r' hr' op hop hclause
    obtain ⟨r, hr, rfl⟩ := List.mem_map.mp hr'
    have hown : g.ownLevel r = some (o.level op) := by
      have hclause' : r.clause = [o.expression, op, o.expression] := hclause
      rw [Grammar.ownLevel, hclause']
      simp [hg.isTerminal_expression, (hg.terminal op (List.mem_cons_of_mem _ hop)).1,
        hg.level op hop]
    simp [Rule.level, hown, (hg.plain r hr).2.2]

end Rules

/-! ## Trees of a grammar -/

/-- The trees that the rules make: a number, or an operator between two such trees. -/
inductive IsExpression (o : Operators) (g : Grammar) : Tree → Prop
  | number {id : RuleId} {r : Rule} {token : Token} : g.rule? id = some r → r.clause = [o.number] →
      token.symbol = o.number → IsExpression o g (.node id o.expression [.leaf token])
  | binary {id : RuleId} {r : Rule} {token : Token} {left right : Tree} : g.rule? id = some r →
      token.symbol ∈ o.symbols → r.clause = [o.expression, token.symbol, o.expression] →
      IsExpression o g left → IsExpression o g right →
      IsExpression o g (.node id o.expression [left, .leaf token, right])

lemma IsExpression.operator_mem (h : o.IsExpression g tree) (hop : op ∈ tree.operator?) :
    op ∈ o.symbols := by
  cases h with
  | number _ _ _ => cases hop
  | binary _ hop' _ _ _ =>
    cases hop
    exact hop'

lemma IsExpression.size (h : o.IsExpression g tree) : tree.size = 2 * tree.yield.length := by
  induction h with
  | number _ _ _ => rfl
  | binary _ _ _ _ _ ihl ihr =>
    simp only [Tree.size, Tree.sizeAll, Tree.yield, Tree.yieldAll, List.length_append, ihl, ihr,
      List.length_nil, List.length_singleton]
    omega

lemma IsExpression.isChain (h : o.IsExpression g tree) :
    o.IsChain (tree.yield.map Token.symbol) := by
  induction h with
  | number _ _ hsymbol =>
    exact ⟨[], fun _ h => absurd h List.not_mem_nil, by simp [Tree.yield, Tree.yieldAll, hsymbol]⟩
  | @binary _ _ token _ _ _ hop _ _ _ ihl ihr =>
    obtain ⟨ops, hops, hw⟩ := ihl
    obtain ⟨ops', hops', hw'⟩ := ihr
    refine ⟨ops ++ token.symbol :: ops', List.forall_mem_append.mpr
      ⟨hops, List.forall_mem_cons.mpr ⟨hop, hops'⟩⟩, ?_⟩
    simp [Tree.yield, Tree.yieldAll, hw, hw']

/-- Only a leaf has a terminal at its root. -/
lemma Rules.exists_leaf (hg : o.Rules g) (h : g.IsDerivation tree)
    (hsymbol : tree.symbol ∈ o.number :: o.symbols) : ∃ token, tree = .leaf token := by
  cases h with
  | leaf _ => exact ⟨_, rfl⟩
  | @node id r _ hr _ _ =>
    rw [Tree.symbol, (hg.plain r (List.mem_of_getElem? hr)).1] at hsymbol
    exact absurd rfl (hg.ne_expression hsymbol)

lemma Rules.isExpression_of_isDerivation (hg : o.Rules g) (h : g.IsDerivation tree)
    (hsymbol : tree.symbol = o.expression) : o.IsExpression g tree := by
  induction h with
  | leaf hterminal => exact absurd hsymbol (hg.ne_expression_of_isTerminal hterminal)
  | @node id r children hr hsymbols hchildren ih =>
    have hmem := List.mem_of_getElem? hr
    rw [hg.symbols_eq hmem] at hsymbols
    rw [(hg.plain r hmem).1]
    rcases hg.clause_cases hmem with hclause | ⟨op, hop, hclause⟩
    · obtain ⟨child, rfl, hchild⟩ := List.map_eq_singleton_iff.mp (hsymbols.trans hclause)
      obtain ⟨token, rfl⟩ := hg.exists_leaf (hchildren _ List.mem_cons_self)
        (hchild ▸ List.mem_cons_self)
      exact .number hr hclause hchild
    · rw [hclause] at hsymbols
      obtain ⟨left, rest, rfl, hleft, hrest⟩ := List.map_eq_cons_iff.mp hsymbols
      obtain ⟨middle, rest, rfl, hmiddle, hrest⟩ := List.map_eq_cons_iff.mp hrest
      obtain ⟨right, rfl, hright⟩ := List.map_eq_singleton_iff.mp hrest
      obtain ⟨token, rfl⟩ := hg.exists_leaf (hchildren middle (by simp))
        (hmiddle ▸ List.mem_cons_of_mem _ hop)
      rw [Tree.symbol] at hmiddle
      subst hmiddle
      exact .binary hr hop hclause (ih left (by simp) hleft) (ih right (by simp) hright)

/-- The trees that the rules make are the derivation trees. -/
theorem Rules.isExpression_iff (hg : o.Rules g) :
    o.IsExpression g tree ↔ g.IsDerivation tree ∧ tree.symbol = o.expression := by
  have hsymbol : ∀ {tree}, o.IsExpression g tree → tree.symbol = o.expression := by
    rintro _ (_ | _) <;> rfl
  refine ⟨fun h => ⟨?_, hsymbol h⟩, fun h => hg.isExpression_of_isDerivation h.1 h.2⟩
  induction h with
  | @number id r token hr hclause hnumber =>
    have hmem := List.mem_of_getElem? hr
    rw [← (hg.plain r hmem).1]
    refine .node hr ?_ (List.forall_mem_singleton.mpr (.leaf ?_))
    · rw [hg.symbols_eq hmem, hclause, List.map_singleton, Tree.symbol, hnumber]
    · exact hnumber ▸ (hg.terminal _ List.mem_cons_self).1
  | @binary id r token left right hr hop hclause hleft hright ihl ihr =>
    have hmem := List.mem_of_getElem? hr
    rw [← (hg.plain r hmem).1]
    refine .node hr ?_ ?_
    · have hleaf : (Tree.leaf token).symbol = token.symbol := rfl
      simp [hg.symbols_eq hmem, hclause, hsymbol hleft, hsymbol hright, hleaf]
    · simp only [List.forall_mem_cons]
      exact ⟨ihl, .leaf (hg.terminal _ (List.mem_cons_of_mem _ hop)).1, ihr,
        fun _ h => absurd h List.not_mem_nil⟩

/-! ## Grouped trees -/

lemma Grouped.number (o : Operators) (id : RuleId) (s : SymbolId) (token : Token) :
    o.Grouped (.node id s [.leaf token]) :=
  .node (List.forall_mem_singleton.mpr (.leaf token)) fun _ _ _ h => by cases h

lemma grouped_binary {id : RuleId} {s : SymbolId} {token : Token} {left right : Tree} :
    o.Grouped (.node id s [left, .leaf token, right]) ↔ o.Grouped left ∧ o.Grouped right ∧
      (∀ op ∈ left.operator?, o.First op token.symbol) ∧
      ∀ op ∈ right.operator?, o.Second token.symbol op := by
  constructor
  · intro h
    cases h with
    | node hchildren hroot =>
      exact ⟨hchildren left (by simp), hchildren right (by simp), hroot left token right rfl⟩
  · rintro ⟨hleft, hright, hroot⟩
    refine .node ?_ fun left' token' right' heq => ?_
    · simp only [List.forall_mem_cons]
      exact ⟨hleft, .leaf token, hright, fun _ h => absurd h List.not_mem_nil⟩
    · cases heq
      exact hroot

/-- One more operator and number can be added on the right. The new operator stands at the root or
below the old one. -/
lemma IsExpression.exists_grouped (hg : o.Rules g) (h : o.IsExpression g tree)
    (hgrouped : o.Grouped tree) {token number : Token} (hop : token.symbol ∈ o.symbols)
    (hnumber : number.symbol = o.number) :
    ∃ tree', o.IsExpression g tree' ∧ o.Grouped tree' ∧
      tree'.yield = tree.yield ++ [token, number] ∧
      (tree'.operator? = some token.symbol ∨ tree'.operator? = tree.operator?) := by
  obtain ⟨r, hr, hclause⟩ := hg.exists_number_rule
  obtain ⟨r', hr', hclause'⟩ := hg.exists_operator_rule hop
  have hrule := hg.valid.rule?_id hr
  have hrule' := hg.valid.rule?_id hr'
  -- the whole tree as the left operand of the new operator
  have hroot : ∀ tree, o.IsExpression g tree → o.Grouped tree →
      (∀ op ∈ tree.operator?, o.First op token.symbol) →
      ∃ tree', o.IsExpression g tree' ∧ o.Grouped tree' ∧
        tree'.yield = tree.yield ++ [token, number] ∧
        (tree'.operator? = some token.symbol ∨ tree'.operator? = tree.operator?) := by
    intro tree h hgrouped hfirst
    refine ⟨.node r'.id o.expression [tree, .leaf token, .node r.id o.expression [.leaf number]],
      .binary hrule' hop hclause' h (.number hrule hclause hnumber),
      grouped_binary.mpr ⟨hgrouped, .number o _ _ _, hfirst, fun op h => by cases h⟩, ?_, .inl rfl⟩
    simp [Tree.yield, Tree.yieldAll]
  induction h with
  | number hid hclause hsymbol =>
    exact hroot _ (.number hid hclause hsymbol) hgrouped fun op h => by cases h
  | @binary id r'' token' left right hid hop' hclause'' hleft hright ihl ihr =>
    rcases first_or_second hop' token.symbol with hfirst | hsecond
    · refine hroot _ (.binary hid hop' hclause'' hleft hright) hgrouped fun op hop => ?_
      cases hop
      exact hfirst
    · obtain ⟨hgl, hgr, hroot⟩ := grouped_binary.mp hgrouped
      obtain ⟨right', hright', hgr', hyield, hop''⟩ := ihr hgr
      refine ⟨.node id o.expression [left, .leaf token', right'],
        .binary hid hop' hclause'' hleft hright',
        grouped_binary.mpr ⟨hgl, hgr', hroot.1, fun op hmem => ?_⟩, ?_, .inr rfl⟩
      · rcases hop'' with heq | heq
        · rw [heq] at hmem
          cases hmem
          exact hsecond
        · exact hroot.2 op (heq ▸ hmem)
      · simp [Tree.yield, Tree.yieldAll, hyield]

/-- Every chain of tokens has a tree that is grouped as it should be. -/
theorem exists_grouped (hg : o.Rules g) {w : List Token} (hw : o.IsChain (w.map Token.symbol)) :
    ∃ tree, o.IsExpression g tree ∧ o.Grouped tree ∧ tree.yield = w := by
  obtain ⟨ops, hops, hsymbols⟩ := hw
  induction ops using List.reverseRecOn generalizing w with
  | nil =>
    obtain ⟨token, rfl, hnumber⟩ := List.map_eq_singleton_iff.mp hsymbols
    obtain ⟨r, hr, hclause⟩ := hg.exists_number_rule
    exact ⟨.node r.id o.expression [.leaf token],
      .number (hg.valid.rule?_id hr) hclause hnumber, .number o _ _ _, rfl⟩
  | append_singleton ops op ih =>
    rw [List.flatMap_append, ← List.cons_append] at hsymbols
    obtain ⟨w, last, rfl, hw, hlast⟩ := List.map_eq_append_iff.mp hsymbols
    obtain ⟨token, rest, rfl, htoken, hrest⟩ := List.map_eq_cons_iff.mp hlast
    obtain ⟨number, rfl, hnumber⟩ := List.map_eq_singleton_iff.mp hrest
    obtain ⟨hops, hop⟩ := List.forall_mem_append.mp hops
    obtain ⟨tree, htree, hgrouped, rfl⟩ := ih hops hw
    obtain ⟨tree', htree', hgrouped', hyield, -⟩ := htree.exists_grouped hg hgrouped
      (htoken ▸ hop op List.mem_cons_self) hnumber
    exact ⟨tree', htree', hgrouped', hyield⟩

end Operators

end ShiftReduce
