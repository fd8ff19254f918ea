import ShiftReduce.Proofs.Calc.Grouping
import ShiftReduce.Proofs.Parse.Across
/-!
# The table of expressions

The grammar of expressions is ambiguous, so its table is only as good as the way its conflicts were
resolved. What the table has to do is said state by state: where an expression may come next, every
kind of expression can begin, and once it is complete it is reduced by its rule on every symbol that
it must leave to what stands around it. A table that does this comes across every grouped expression
from every such state. That the table of the grammar does it is found by evaluation.

Main statements: `Calc.Steers.crossed` and `Calc.steers_table`.
-/

namespace ShiftReduce

namespace Calc

/-- The symbols before which a tree with this root is complete: the end of input, the closing
bracket, the comma, and the operators that may take the tree as their left operand. -/
def Root.enders (root : Root) : List SymbolId :=
  [SymbolId.eoi, 10, 11] ++ (operators.filter fun o => root.OnLeft o.level).map Operator.symbol

namespace Steering

variable (t : ActionTable)

/-- The state behind an operand goes on with all operators with which the operand may have such a
root. -/
def Allows (dest : StateId) (allowed : Root → Prop) : Prop :=
  ∀ o ∈ operators, allowed (.binary o.level) → (t.shift? dest o.symbol).isSome

/-- The state reduces by a rule before all symbols before which the trees of the rule end. -/
def Completes (state : StateId) (id : RuleId) : Prop :=
  ∀ s ∈ (Root.ofRule id).enders, t.action? state s = some (.reduce id)

/-- The state reduces by a rule for arguments before the closing bracket and the comma. -/
def Lists (state : StateId) (id : RuleId) : Prop :=
  ∀ s ∈ [10, 11], t.action? state s = some (.reduce id)

instance (dest : StateId) (allowed : Root → Prop) [DecidablePred allowed] :
    Decidable (Allows t dest allowed) := by unfold Allows; infer_instance

instance (state : StateId) (id : RuleId) : Decidable (Completes t state id) := by
  unfold Completes; infer_instance

instance (state : StateId) (id : RuleId) : Decidable (Lists t state id) := by
  unfold Lists; infer_instance

/-- In the state a list of arguments may come next, which leads to the other state. -/
@[mk_iff]
structure Listing (state dest : StateId) : Prop where
  empty : Lists t state 10
  one : ∃ behind ∈ t.goto? state expression, Allows t behind (fun _ => True) ∧ Lists t behind 8
  more : ∃ next ∈ t.shift? dest 11, ∃ behind ∈ t.goto? next expression,
    Allows t behind (fun _ => True) ∧ Lists t behind 9

instance (state dest : StateId) : Decidable (Listing t state dest) :=
  decidable_of_iff _ (listing_iff t state dest).symm

/-- In the state an expression may come next, which leads to the state behind it. -/
@[mk_iff]
structure Operand (state behind : StateId) : Prop where
  /-- An operator is not left to what stands in front if a weaker one is not. -/
  monotone : ∀ o ∈ operators, (t.shift? behind o.symbol).isSome →
    Allows t behind (Root.OnLeft o.level)
  binary : ∀ o ∈ operators, ∀ next ∈ t.shift? behind o.symbol,
    ∃ behind' ∈ t.goto? next expression,
      Allows t behind' (Root.OnRight o.level) ∧ Completes t behind' o.rule
  negation : ∃ next ∈ t.shift? state 4, ∃ behind' ∈ t.goto? next expression,
    Allows t behind' Root.Negated ∧ Completes t behind' 6
  bracketed : ∃ next ∈ t.shift? state 9, ∃ behind' ∈ t.goto? next expression,
    Allows t behind' (fun _ => True) ∧ ∃ last ∈ t.shift? behind' 10, Completes t last 7
  call : ∃ next ∈ t.shift? state 13, ∃ first ∈ t.shift? next 9, ∃ dest ∈ t.goto? first arguments,
    Listing t first dest ∧ ∃ last ∈ t.shift? dest 10, Completes t last 11
  atom : ∀ atom ∈ atoms, ∃ last ∈ t.shift? state atom.2, Completes t last atom.1

instance (state behind : StateId) : Decidable (Operand t state behind) :=
  decidable_of_iff _ (operand_iff t state behind).symm

end Steering

/-- The table goes through every expression as it is grouped. -/
@[mk_iff]
structure Steers (t : ActionTable) : Prop where
  start : ∃ last ∈ t.goto? 0 expression, Steering.Allows t last (fun _ => True) ∧
    t.action? last SymbolId.eoi = some .accept
  operand : ∀ state < t.gotos.length, ∀ behind ∈ t.goto? state expression,
    Steering.Operand t state behind

instance (t : ActionTable) : Decidable (Steers t) := decidable_of_iff _ (steers_iff t).symm

variable {t : ActionTable} {state behind dest : StateId} {c : SymbolId} {o : Operator} {id : RuleId}
  {root : Root} {tree left right operand : Tree} {token : Token} {items : List Tree}

/-! ## Where trees end -/

lemma mem_enders : c ∈ root.enders ↔
    c ∈ [SymbolId.eoi, 10, 11] ∨ ∃ o ∈ operators, root.OnLeft o.level ∧ o.symbol = c := by
  simp [Root.enders, and_assoc, or_assoc]

/-- Where an operator with its operands ends, its right operand ends too. -/
lemma enders_subset_of_onRight (ho : o ∈ operators) (h : root.OnRight o.level) :
    (Root.binary o.level).enders ⊆ root.enders := by
  intro c hc
  rw [mem_enders] at hc ⊢
  refine hc.imp_right ?_
  rintro ⟨o', ho', honLeft, rfl⟩
  refine ⟨o', ho', ?_, rfl⟩
  cases root with
  | binary level =>
    rcases h with hlt | ⟨rfl, hlevel⟩ <;> rcases honLeft with hlt' | ⟨heq, hlevel'⟩
    · exact .inl (by omega)
    · exact .inl (by omega)
    · exact .inl hlt'
    · omega
  | negation =>
    have : ∀ o ∈ operators, ∀ o' ∈ operators, (Root.binary o.level).OnLeft o'.level →
      Root.negation.OnLeft o'.level := by decide
    exact this o ho o' ho' honLeft
  | other => trivial

/-- Where a negation ends, its operand ends too. -/
lemma enders_subset_of_negated (h : root.Negated) : Root.negation.enders ⊆ root.enders := by
  intro c hc
  rw [mem_enders] at hc ⊢
  refine hc.imp_right ?_
  rintro ⟨o, ho, honLeft, rfl⟩
  refine ⟨o, ho, ?_, rfl⟩
  cases root with
  | binary level =>
    obtain rfl : level = 4 := h
    exact .inl (Nat.lt_succ_of_lt honLeft)
  | negation => exact honLeft
  | other => trivial

lemma symbol_mem_enders (ho : o ∈ operators) (h : root.OnLeft o.level) :
    o.symbol ∈ root.enders :=
  mem_enders.mpr (.inr ⟨o, ho, h, rfl⟩)

namespace Steering

lemma Allows.mono {allowed allowed' : Root → Prop} (h : Allows t behind allowed)
    (hroot : ∀ root, allowed' root → allowed root) : Allows t behind allowed' :=
  fun o ho ho' => h o ho (hroot _ ho')

/-- Over the tree the table comes from every state in which an expression may come next to the state
behind it, if that goes on with the operator at the root and if the tree ends where it has to. -/
def Crossed (t : ActionTable) (tree : Tree) : Prop :=
  ∀ state behind c, t.goto? state expression = some behind → Allows t behind (· = rootOf tree) →
    c ∈ (rootOf tree).enders → t.across c tree state = some behind

end Steering

open Steering ActionTable

namespace Steers

variable (h : Steers t)

include h

lemma operand_of_goto (hgoto : t.goto? state expression = some behind) :
    Operand t state behind := by
  refine h.operand state ?_ behind hgoto
  by_contra hlength
  rw [ActionTable.goto?, ActionTable.cell?, List.getElem?_eq_none (Nat.not_lt.mp hlength)] at hgoto
  cases hgoto

lemma crossed_binary (ho : o ∈ operators) (htoken : token.symbol = o.symbol)
    (hleft : Crossed t left) (hright : Crossed t right) (honLeft : (rootOf left).OnLeft o.level)
    (honRight : (rootOf right).OnRight o.level) :
    Crossed t (.node o.rule expression [left, .leaf token, right]) := by
  intro state behind c hgoto hallows hends
  have hoperand := h.operand_of_goto hgoto
  have hroot := rootOf_binary ho expression [left, .leaf token, right]
  obtain ⟨next, hnext⟩ := Option.isSome_iff_exists.mp (hallows o ho hroot.symm)
  obtain ⟨behind', hgoto', hallows', hcompletes⟩ := hoperand.binary o ho next hnext
  have hl := hleft state behind o.symbol hgoto
    ((hoperand.monotone o ho (hnext ▸ rfl)).mono fun _ h => h ▸ honLeft)
    (symbol_mem_enders ho honLeft)
  have hr := hright next behind' c hgoto' (hallows'.mono fun _ h => h ▸ honRight)
    (enders_subset_of_onRight ho honRight (hroot ▸ hends))
  rw [← htoken] at hl hnext
  exact across_node (acrossAll_cons hl (acrossAll_leaf hnext (acrossAll_cons hr rfl)))
    (hcompletes c hends) hgoto

lemma crossed_negation (htoken : token.symbol = 4) (hoperand : Crossed t operand)
    (hnegated : (rootOf operand).Negated) :
    Crossed t (.node 6 expression [.leaf token, operand]) := by
  intro state behind c hgoto _ hends
  obtain ⟨next, hnext, behind', hgoto', hallows', hcompletes⟩ :=
    (h.operand_of_goto hgoto).negation
  have ho := hoperand next behind' c hgoto' (hallows'.mono fun _ h => h ▸ hnegated)
    (enders_subset_of_negated hnegated hends)
  rw [← htoken] at hnext
  exact across_node (acrossAll_leaf hnext (acrossAll_cons ho rfl)) (hcompletes c hends) hgoto

lemma crossed_atom {id : RuleId} (hatom : (id, token.symbol) ∈ atoms) :
    Crossed t (.node id expression [.leaf token]) := by
  intro state behind c hgoto _ hends
  obtain ⟨last, hlast, hcompletes⟩ := (h.operand_of_goto hgoto).atom _ hatom
  exact across_node (acrossAll_leaf hlast rfl) (hcompletes c hends) hgoto

lemma crossed_bracketed {opening closing : Token} (hopening : opening.symbol = 9)
    (hclosing : closing.symbol = 10) (hinner : Crossed t tree) :
    Crossed t (.node 7 expression [.leaf opening, tree, .leaf closing]) := by
  intro state behind c hgoto _ hends
  obtain ⟨next, hnext, behind', hgoto', hallows', last, hlast, hcompletes⟩ :=
    (h.operand_of_goto hgoto).bracketed
  have hi := hinner next behind' 10 hgoto' (hallows'.mono fun _ _ => trivial)
    (mem_enders.mpr (.inl (by decide)))
  rw [← hopening] at hnext
  rw [← hclosing] at hi hlast
  exact across_node (acrossAll_leaf hnext (acrossAll_cons hi (acrossAll_leaf hlast rfl)))
    (hcompletes c hends) hgoto

omit h in
/-- Over a list of arguments the table comes from where it may come next to the state behind it. -/
lemma across_arguments (hlisting : Listing t state dest)
    (hgoto : t.goto? state arguments = some dest)
    (hargs : IsArguments tree items) (hitems : ∀ item ∈ items, Crossed t item)
    (hc : c ∈ [10, 11]) : t.across c tree state = some dest := by
  have hends : ∀ {c : SymbolId} {root : Root}, c ∈ [10, 11] → c ∈ root.enders :=
    fun hc => mem_enders.mpr (.inl (List.mem_cons_of_mem _ hc))
  induction hargs generalizing c with
  | empty => exact across_node rfl (hlisting.empty c hc) hgoto
  | one item =>
    obtain ⟨behind, hgoto', hallows, hlists⟩ := hlisting.one
    have hi := hitems item List.mem_cons_self state behind c hgoto'
      (hallows.mono fun _ _ => trivial) (hends hc)
    exact across_node (acrossAll_cons hi rfl) (hlists c hc) hgoto
  | @more args items comma item _ hcomma ih =>
    obtain ⟨hitems, hitem⟩ := List.forall_mem_append.mp hitems
    obtain ⟨next, hnext, behind, hgoto', hallows, hlists⟩ := hlisting.more
    have hi := hitem item List.mem_cons_self next behind c hgoto'
      (hallows.mono fun _ _ => trivial) (hends hc)
    have ha := ih hitems (c := 11) (by decide)
    rw [← hcomma] at ha hnext
    exact across_node (acrossAll_cons ha (acrossAll_leaf hnext (acrossAll_cons hi rfl)))
      (hlists c hc) hgoto

lemma crossed_call {name opening closing : Token} (hname : name.symbol = 13)
    (hopening : opening.symbol = 9) (hclosing : closing.symbol = 10)
    (hargs : IsArguments tree items) (hitems : ∀ item ∈ items, Crossed t item) :
    Crossed t (.node 11 expression [.leaf name, .leaf opening, tree, .leaf closing]) := by
  intro state behind c hgoto _ hends
  obtain ⟨next, hnext, first, hfirst, dest, hgoto', hlisting, last, hlast, hcompletes⟩ :=
    (h.operand_of_goto hgoto).call
  have ha := across_arguments hlisting hgoto' hargs hitems (c := 10) (by decide)
  rw [← hname] at hnext
  rw [← hopening] at hfirst
  rw [← hclosing] at ha hlast
  exact across_node
    (acrossAll_leaf hnext (acrossAll_leaf hfirst (acrossAll_cons ha (acrossAll_leaf hlast rfl))))
    (hcompletes c hends) hgoto

/-- The table comes across every grouped expression. -/
theorem crossed (hexpression : IsExpression tree) (hgrouped : Grouped tree) : Crossed t tree := by
  induction hexpression with
  | atom hatom => exact h.crossed_atom hatom
  | binary ho htoken _ _ ihl ihr =>
    obtain ⟨hgl, hgr, honLeft, honRight⟩ := (grouped_binary ho).mp hgrouped
    exact h.crossed_binary ho htoken (ihl hgl) (ihr hgr) honLeft honRight
  | negation hminus _ ih =>
    obtain ⟨hgo, hnegated⟩ := grouped_negation.mp hgrouped
    exact h.crossed_negation hminus (ih hgo) hnegated
  | bracketed hopening hclosing _ ih =>
    exact h.crossed_bracketed hopening hclosing (ih (hgrouped.child _ (by simp)))
  | @call _ _ _ args _ hname hopening hclosing hargs _ ih =>
    have hitems := hargs.grouped_iff.mp (hgrouped.child args (by simp))
    exact h.crossed_call hname hopening hclosing hargs fun item hitem => ih item hitem
      (hitems item hitem)

end Steers

/-- The table of the grammar. -/
def table : ActionTable := (arithmetic.automatonOf expression).table arithmetic.inheritLevels

lemma steers_table : Steers table := by decide +kernel

end Calc

end ShiftReduce
