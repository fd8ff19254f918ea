import ShiftReduce.Proofs.Calc.Grammar
import ShiftReduce.Proofs.Parse.Callback
/-!
# Precedence

Which trees of an expression group its operators as they bind. Sums and differences bind weakest,
then products, quotients and remainders, then negation, and powers bind tightest. Powers group to
the right, all others to the left. A negation takes no operand that would have to wait for a weaker
operator inside it, but it may stand to the right of any operator, since nothing else can be meant.

Every expression can be regrouped into such a tree without changing its tokens: an operator is
handed down the right side of a tree until it finds an operand it may take, and a sign is handed
down the left side. The callbacks of the grammar, which drop brackets and flatten lists, leave the
grouping alone.

Main statements: `Calc.IsExpression.exists_grouped` and `Calc.Grouped.rebuild`.
-/

namespace ShiftReduce

namespace Calc

/-! ## Roots -/

/-- What a tree is at its root, as far as precedence is concerned. -/
inductive Root where
  /-- An operator of this level between two operands. -/
  | binary (level : Nat)
  | negation
  | other
  deriving DecidableEq

/-- What the nodes made by a rule are. -/
def Root.ofRule (id : RuleId) : Root :=
  match operators.find? fun o => o.rule == id with
  | some o => .binary o.level
  | none => if id = 6 then .negation else .other

/-- What a tree is at its root. -/
def rootOf : Tree → Root
  | .leaf _ => .other
  | .node id _ _ => .ofRule id

namespace Root

/-- The tree may be the left operand of an operator of this level. -/
def OnLeft (level : Nat) : Root → Prop
  | binary inner => level < inner ∨ inner = level ∧ (level = 1 ∨ level = 2)
  | negation => level < 3
  | other => True

/-- The tree may be the right operand of an operator of this level. -/
def OnRight (level : Nat) : Root → Prop
  | binary inner => level < inner ∨ inner = level ∧ level = 4
  | _ => True

/-- The tree may be the operand of a negation. -/
def Negated : Root → Prop
  | binary inner => inner = 4
  | _ => True

instance (level : Nat) (root : Root) : Decidable (root.OnLeft level) := by
  cases root <;> unfold OnLeft <;> infer_instance

instance (level : Nat) (root : Root) : Decidable (root.OnRight level) := by
  cases root <;> unfold OnRight <;> infer_instance

instance (root : Root) : Decidable root.Negated := by
  cases root <;> unfold Negated <;> infer_instance

end Root

/-- Every operator in the tree has operands that it may take. -/
inductive Grouped : Tree → Prop
  | leaf (token : Token) : Grouped (.leaf token)
  | binary {o : Operator} {s : SymbolId} {token : Token} {left right : Tree} : o ∈ operators →
      Grouped left → Grouped right → (rootOf left).OnLeft o.level →
      (rootOf right).OnRight o.level → Grouped (.node o.rule s [left, .leaf token, right])
  | negation {s : SymbolId} {token : Token} {operand : Tree} : Grouped operand →
      (rootOf operand).Negated → Grouped (.node 6 s [.leaf token, operand])
  | other {id : RuleId} {s : SymbolId} {children : List Tree} : Root.ofRule id = .other →
      (∀ child ∈ children, Grouped child) → Grouped (.node id s children)

variable {o o' : Operator} {tree left right last : Tree} {token : Token} {items : List Tree}

lemma ofRule_operator : ∀ o ∈ operators, Root.ofRule o.rule = .binary o.level := by decide

lemma ofRule_atom : ∀ atom ∈ atoms, Root.ofRule atom.1 = .other := by decide

lemma rootOf_binary (ho : o ∈ operators) (s : SymbolId) (children : List Tree) :
    rootOf (.node o.rule s children) = .binary o.level := ofRule_operator o ho

lemma operator_eq_of_rule_eq : ∀ o ∈ operators, ∀ o' ∈ operators, o.rule = o'.rule → o = o' := by
  decide

/-- Of two operators with an operand between them one may take it. -/
lemma onLeft_or_onRight : ∀ o ∈ operators, ∀ o' ∈ operators,
    (Root.binary o.level).OnLeft o'.level ∨ (Root.binary o'.level).OnRight o.level := by
  decide

/-- A negation and an operator with an operand between them, and one may take it. -/
lemma onLeft_negation_or_negated : ∀ o ∈ operators,
    Root.negation.OnLeft o.level ∨ (Root.binary o.level).Negated := by
  decide

lemma grouped_binary (ho : o ∈ operators) {s : SymbolId} :
    Grouped (.node o.rule s [left, .leaf token, right]) ↔ Grouped left ∧ Grouped right ∧
      (rootOf left).OnLeft o.level ∧ (rootOf right).OnRight o.level := by
  refine ⟨fun h => ?_, fun ⟨hleft, hright, honLeft, honRight⟩ =>
    .binary ho hleft hright honLeft honRight⟩
  generalize hid : o.rule = id at h
  cases h with
  | @binary o' _ _ _ _ ho' hleft hright honLeft honRight =>
    cases operator_eq_of_rule_eq o ho o' ho' hid
    exact ⟨hleft, hright, honLeft, honRight⟩
  | other hother _ =>
    subst hid
    rw [ofRule_operator o ho] at hother
    cases hother

lemma grouped_negation {s : SymbolId} :
    Grouped (.node 6 s [.leaf token, tree]) ↔ Grouped tree ∧ (rootOf tree).Negated := by
  refine ⟨fun h => ?_, fun ⟨hoperand, hnegated⟩ => .negation hoperand hnegated⟩
  generalize hid : 6 = id at h
  cases h with
  | negation hoperand hnegated => exact ⟨hoperand, hnegated⟩
  | other hother _ =>
    subst hid
    cases hother

lemma Grouped.child {id : RuleId} {s : SymbolId} {children : List Tree}
    (h : Grouped (.node id s children)) : ∀ child ∈ children, Grouped child := by
  cases h with
  | binary _ hleft hright _ _ =>
    simp only [List.forall_mem_cons]
    exact ⟨hleft, .leaf _, hright, List.forall_mem_nil _⟩
  | negation hoperand _ =>
    simp only [List.forall_mem_cons]
    exact ⟨.leaf _, hoperand, List.forall_mem_nil _⟩
  | other _ hchildren => exact hchildren

/-- A list of arguments is grouped if they are. -/
lemma IsArguments.grouped_iff (h : IsArguments tree items) :
    Grouped tree ↔ ∀ item ∈ items, Grouped item := by
  induction h with
  | empty => exact ⟨fun _ => List.forall_mem_nil _, fun _ => .other rfl (List.forall_mem_nil _)⟩
  | one item => exact ⟨Grouped.child, .other rfl⟩
  | @more args items comma item _ _ ih =>
    rw [List.forall_mem_append, ← ih, List.forall_mem_singleton]
    refine ⟨fun h => ⟨h.child args (by simp), h.child item (by simp)⟩, fun h => .other rfl ?_⟩
    simp only [List.forall_mem_cons]
    exact ⟨h.1, .leaf comma, h.2, List.forall_mem_nil _⟩

/-! ## Regrouping -/

lemma yield_binary (id : RuleId) (s : SymbolId) (left right : Tree) (token : Token) :
    (Tree.node id s [left, .leaf token, right]).yield = left.yield ++ token :: right.yield := by
  simp [Tree.yield, Tree.yieldAll]

lemma yield_negation (id : RuleId) (s : SymbolId) (operand : Tree) (token : Token) :
    (Tree.node id s [.leaf token, operand]).yield = token :: operand.yield := by
  simp [Tree.yield, Tree.yieldAll]

/-- The tree is a grouped expression. -/
inductive Arranged : Tree → Prop
  | primary {tree : Tree} : IsExpression tree → Grouped tree → rootOf tree = .other → Arranged tree
  | binary {o : Operator} {token : Token} {left right : Tree} : o ∈ operators →
      token.symbol = o.symbol → Arranged left → Arranged right → (rootOf left).OnLeft o.level →
      (rootOf right).OnRight o.level →
      Arranged (.node o.rule expression [left, .leaf token, right])
  | negation {token : Token} {operand : Tree} : token.symbol = 4 → Arranged operand →
      (rootOf operand).Negated → Arranged (.node 6 expression [.leaf token, operand])

lemma Arranged.isExpression (h : Arranged tree) : IsExpression tree := by
  induction h with
  | primary h _ _ => exact h
  | binary ho htoken _ _ _ _ ihl ihr => exact .binary ho htoken ihl ihr
  | negation htoken _ _ ih => exact .negation htoken ih

lemma Arranged.grouped (h : Arranged tree) : Grouped tree := by
  induction h with
  | primary _ h _ => exact h
  | binary ho _ _ _ honLeft honRight ihl ihr => exact .binary ho ihl ihr honLeft honRight
  | negation _ _ hnegated ih => exact .negation ih hnegated

/-- An operator can be put behind a tree, with a right operand that it may take. It takes the tree,
or a part of it on the right, as its left operand. -/
lemma Arranged.exists_snoc (h : Arranged tree) (hlast : Arranged last) (ho : o ∈ operators)
    (htoken : token.symbol = o.symbol) (honRight : (rootOf last).OnRight o.level) :
    ∃ tree', Arranged tree' ∧ tree'.yield = tree.yield ++ token :: last.yield ∧
      (rootOf tree' = .binary o.level ∨ rootOf tree' = rootOf tree) := by
  have hwhole : ∀ tree, Arranged tree → (rootOf tree).OnLeft o.level →
      ∃ tree', Arranged tree' ∧ tree'.yield = tree.yield ++ token :: last.yield ∧
        (rootOf tree' = .binary o.level ∨ rootOf tree' = rootOf tree) :=
    fun tree h honLeft => ⟨_, .binary ho htoken h hlast honLeft honRight, yield_binary _ _ _ _ _,
      .inl (rootOf_binary ho _ _)⟩
  induction h with
  | primary h hgrouped hother =>
    refine hwhole _ (.primary h hgrouped hother) ?_
    rw [hother]
    trivial
  | @binary o' token' left right ho' htoken' hleft hright honLeft' honRight' _ ih =>
    rcases onLeft_or_onRight o' ho' o ho with honLeft | honRight''
    · refine hwhole _ (.binary ho' htoken' hleft hright honLeft' honRight') ?_
      rwa [rootOf_binary ho']
    · obtain ⟨right', hright', hyield, hroot⟩ := ih
      have : (rootOf right').OnRight o'.level := by rcases hroot with heq | heq <;> rwa [heq]
      refine ⟨_, .binary ho' htoken' hleft hright' honLeft' this, ?_, .inr rfl⟩
      rw [yield_binary, yield_binary, hyield, List.append_assoc, List.cons_append]
  | @negation minus operand hminus hoperand hnegated ih =>
    rcases onLeft_negation_or_negated o ho with honLeft | hnegated'
    · exact hwhole _ (.negation hminus hoperand hnegated) honLeft
    · obtain ⟨operand', hoperand', hyield, hroot⟩ := ih
      have : (rootOf operand').Negated := by rcases hroot with heq | heq <;> rwa [heq]
      refine ⟨_, .negation hminus hoperand' this, ?_, .inr rfl⟩
      rw [yield_negation, yield_negation, hyield, List.cons_append]

/-- Two trees can be joined by an operator. It is handed down the left side of the second tree, and
what stands there goes behind it. -/
lemma Arranged.exists_join (hright : Arranged right) (hleft : Arranged left) (ho : o ∈ operators)
    (htoken : token.symbol = o.symbol) :
    ∃ tree, Arranged tree ∧ tree.yield = left.yield ++ token :: right.yield := by
  have hwhole : ∀ right, Arranged right → (rootOf right).OnRight o.level →
      ∃ tree, Arranged tree ∧ tree.yield = left.yield ++ token :: right.yield :=
    fun right hright honRight =>
      have ⟨tree, htree, hyield, _⟩ := hleft.exists_snoc hright ho htoken honRight
      ⟨tree, htree, hyield⟩
  induction hright with
  | primary h hgrouped hother =>
    refine hwhole _ (.primary h hgrouped hother) ?_
    rw [hother]
    trivial
  | @binary o' token' first second ho' htoken' _ hsecond _ honRight ih _ =>
    obtain ⟨tree, htree, hyield⟩ := ih
    obtain ⟨tree', htree', hyield', -⟩ := htree.exists_snoc hsecond ho' htoken' honRight
    refine ⟨tree', htree', ?_⟩
    rw [hyield', hyield, yield_binary, List.append_assoc, List.cons_append]
  | negation hminus hoperand hnegated _ =>
    exact hwhole _ (.negation hminus hoperand hnegated) trivial

/-- A tree can be negated. The sign takes the tree, or a part of it on the left. -/
lemma Arranged.exists_negation (h : Arranged tree) (htoken : token.symbol = 4) :
    ∃ tree', Arranged tree' ∧ tree'.yield = token :: tree.yield ∧
      (rootOf tree' = .negation ∨ rootOf tree' = rootOf tree) := by
  have hwhole : ∀ tree, Arranged tree → (rootOf tree).Negated →
      ∃ tree', Arranged tree' ∧ tree'.yield = token :: tree.yield ∧
        (rootOf tree' = .negation ∨ rootOf tree' = rootOf tree) :=
    fun tree h hnegated =>
      ⟨_, .negation htoken h hnegated, yield_negation _ _ _ _, .inl rfl⟩
  induction h with
  | primary h hgrouped hother =>
    refine hwhole _ (.primary h hgrouped hother) ?_
    rw [hother]
    trivial
  | @binary o token' left right ho htoken' hleft hright honLeft honRight ih _ =>
    rcases onLeft_negation_or_negated o ho with honLeft' | hnegated
    · obtain ⟨left', hleft', hyield, hroot⟩ := ih
      have : (rootOf left').OnLeft o.level := by rcases hroot with heq | heq <;> rwa [heq]
      refine ⟨_, .binary ho htoken' hleft' hright this honRight, ?_, .inr rfl⟩
      rw [yield_binary, yield_binary, hyield, List.cons_append]
    · refine hwhole _ (.binary ho htoken' hleft hright honLeft honRight) ?_
      rwa [rootOf_binary ho]
  | negation hminus hoperand hnegated _ =>
    exact hwhole _ (.negation hminus hoperand hnegated) trivial

/-- A list of arguments can be regrouped item by item. -/
lemma IsArguments.exists_arranged (h : IsArguments tree items)
    (hitems : ∀ item ∈ items, ∃ item', Arranged item' ∧ item'.yield = item.yield) :
    ∃ tree' items', IsArguments tree' items' ∧ (∀ item ∈ items', Arranged item) ∧
      tree'.yield = tree.yield := by
  induction h with
  | empty => exact ⟨_, [], .empty, List.forall_mem_nil _, rfl⟩
  | one item =>
    obtain ⟨item', hitem', hyield⟩ := hitems item List.mem_cons_self
    refine ⟨_, [item'], .one item', List.forall_mem_singleton.mpr hitem', ?_⟩
    simp [Tree.yield, Tree.yieldAll, hyield]
  | @more args items comma item _ hcomma ih =>
    obtain ⟨hitems, hitem⟩ := List.forall_mem_append.mp hitems
    obtain ⟨item', hitem', hyield⟩ := hitem item List.mem_cons_self
    obtain ⟨args', items', hargs', hitems', hyields⟩ := ih hitems
    refine ⟨_, _, .more item' hargs' hcomma, List.forall_mem_append.mpr
      ⟨hitems', List.forall_mem_singleton.mpr hitem'⟩, ?_⟩
    simp [Tree.yield, Tree.yieldAll, hyield, hyields]

lemma arranged_atom {id : RuleId} (h : (id, token.symbol) ∈ atoms) :
    Arranged (.node id expression [.leaf token]) :=
  have hother := ofRule_atom _ h
  .primary (.atom h) (.other hother (List.forall_mem_singleton.mpr (.leaf token))) hother

lemma arranged_bracketed {opening closing : Token} (hopening : opening.symbol = 9)
    (hclosing : closing.symbol = 10) (h : Arranged tree) :
    Arranged (.node 7 expression [.leaf opening, tree, .leaf closing]) := by
  refine .primary (.bracketed hopening hclosing h.isExpression) (.other rfl ?_) rfl
  simp only [List.forall_mem_cons]
  exact ⟨.leaf _, h.grouped, .leaf _, List.forall_mem_nil _⟩

/-- Every expression can be regrouped. -/
lemma IsExpression.exists_arranged (h : IsExpression tree) :
    ∃ tree', Arranged tree' ∧ tree'.yield = tree.yield := by
  induction h with
  | atom hatom => exact ⟨_, arranged_atom hatom, rfl⟩
  | binary ho htoken _ _ ihl ihr =>
    obtain ⟨left, hleft, hyieldl⟩ := ihl
    obtain ⟨right, hright, hyieldr⟩ := ihr
    obtain ⟨tree', htree', hyield⟩ := hright.exists_join hleft ho htoken
    exact ⟨tree', htree', by rw [hyield, hyieldl, hyieldr, yield_binary]⟩
  | negation hminus _ ih =>
    obtain ⟨operand, hoperand, hyield⟩ := ih
    obtain ⟨tree', htree', hyield', -⟩ := hoperand.exists_negation hminus
    exact ⟨tree', htree', by rw [hyield', hyield, yield_negation]⟩
  | bracketed hopening hclosing _ ih =>
    obtain ⟨inner, hinner, hyield⟩ := ih
    exact ⟨_, arranged_bracketed hopening hclosing hinner,
      by simp [Tree.yield, Tree.yieldAll, hyield]⟩
  | call hname hopening hclosing hargs _ ih =>
    obtain ⟨args', items', hargs', hitems', hyield⟩ := hargs.exists_arranged ih
    refine ⟨_, .primary (.call hname hopening hclosing hargs'
      fun item h => (hitems' item h).isExpression) (.other rfl ?_) rfl, ?_⟩
    · simp only [List.forall_mem_cons]
      exact ⟨.leaf _, .leaf _, hargs'.grouped_iff.mpr fun item h => (hitems' item h).grouped,
        .leaf _, List.forall_mem_nil _⟩
    · simp [Tree.yield, Tree.yieldAll, hyield]

/-- For the tokens of an expression there is an expression that is grouped. -/
theorem IsExpression.exists_grouped (h : IsExpression tree) :
    ∃ tree', IsExpression tree' ∧ Grouped tree' ∧ tree'.yield = tree.yield :=
  have ⟨tree', htree', hyield⟩ := h.exists_arranged
  ⟨tree', htree'.isExpression, htree'.grouped, hyield⟩

/-! ## Callbacks -/

/-- The callbacks drop brackets and flatten lists of arguments. -/
lemma handle_eq (n : Node) : arithmetic.handle n =
    if n.rule = 7 then dropLeaves n else if n.rule = 9 then flattenList n else n := by
  obtain ⟨id, s, children⟩ := n
  match id with
  | 0 | 1 | 2 | 3 | 4 | 5 | 6 | 7 | 8 | 9 | 10 | 11 | 12 | 13 => rfl
  | id + 14 => rfl

lemma grouped_flattenList {n : Node} (h : ∀ child ∈ n.children, Grouped child) :
    ∀ child ∈ (flattenList n).children, Grouped child := by
  have hfront : ∀ child ∈ n.children.dropLast, Grouped child :=
    fun child hchild => h child (List.mem_of_mem_dropLast hchild)
  have hlast : ∀ child ∈ n.children.getLast?.toList, Grouped child :=
    fun child hchild => h child (List.mem_of_getLast? (Option.mem_toList.mp hchild))
  refine List.forall_mem_append.mpr ⟨?_, hlast⟩
  split
  · exact List.forall_mem_nil _
  · next heq => exact (hfront _ (heq ▸ List.mem_cons_self)).child
  · next token _ heq => exact List.forall_mem_singleton.mpr (.leaf token)

lemma rootOf_rebuild (tree : Tree) : rootOf (tree.rebuild arithmetic.handle) = rootOf tree := by
  cases tree with
  | leaf token => rfl
  | node id s children =>
    rw [Tree.rebuild, handle_eq]
    split
    · rfl
    · split <;> rfl

/-- The callbacks leave a tree grouped. -/
theorem Grouped.rebuild (h : Grouped tree) : Grouped (tree.rebuild arithmetic.handle) := by
  have hplain : ∀ o ∈ operators, o.rule ≠ 7 ∧ o.rule ≠ 9 := by decide
  induction h with
  | leaf token => exact .leaf token
  | @binary o s token left right ho _ _ honLeft honRight ihl ihr =>
    rw [Tree.rebuild, handle_eq, if_neg (hplain o ho).1, if_neg (hplain o ho).2]
    exact .binary ho ihl ihr (by rwa [rootOf_rebuild]) (by rwa [rootOf_rebuild])
  | negation _ hnegated ih =>
    rw [Tree.rebuild, handle_eq]
    exact .negation ih (by rwa [rootOf_rebuild])
  | @other id s children hother _ ih =>
    rw [Tree.rebuild, handle_eq, Tree.rebuildAll_eq_map]
    have hchildren : ∀ child ∈ children.map (Tree.rebuild arithmetic.handle), Grouped child :=
      List.forall_mem_map.mpr ih
    split
    · exact .other hother fun child h => hchildren child (List.mem_of_mem_filter h)
    · split
      · exact .other hother (grouped_flattenList hchildren)
      · exact .other hother hchildren

end Calc

end ShiftReduce
