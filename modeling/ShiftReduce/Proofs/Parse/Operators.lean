import ShiftReduce.Proofs.Grammar.Reach
import ShiftReduce.Proofs.Parse.Ending
import ShiftReduce.Proofs.Parse.Lockstep
import ShiftReduce.Proofs.Table.Sums
/-!
# Parsing with operators

The parser of a grammar of operators rebuilds the tree in which every operator takes the operands
that levels and associativities give to it. A tree is rebuilt where it fits: above an operator that
leaves the tree to its root, and before an operator that does so too. Its operands then fit where
they stand.

Main statements: `Operators.rebuilds_of_grouped` and `Operators.Rules.parser_groups`.
-/

namespace ShiftReduce

namespace Parser

/-- The stack has these labels, and the item is one of the state on top. -/
structure Stands (p : Parser) (target : SymbolId) (c : Configuration) (labels : List SymbolId)
    (st : State) (i : Dotted) : Prop where
  path : (p.grammar.automatonOf target).Path p.grammar labels c.frames
  state : (p.grammar.automatonOf target).states[c.state]? = some st
  item : i ∈ (p.grammar.productions target).closure (st.kernelSet (p.grammar.productions target))

namespace Stands

variable {p : Parser} {target s : SymbolId} {c c' : Configuration} {labels : List SymbolId}
  {st : State} {i j : Dotted} {β : List Part} {tree : Tree} {dest : StateId} {token : Token}
  {tokens : List Token}

lemma start (hb : p.grammar.Builds target p.table) (input : List Lexeme) :
    ∃ st, p.Stands target (.start input) [] st Dotted.start ∧
      (p.grammar.productions target).Lalr (st.kernelSet (p.grammar.productions target))
        Dotted.start SymbolId.eoi := by
  obtain ⟨st, hst, hset⟩ := hb.isLalr.start
  exact ⟨st, ⟨trivial, hst, Productions.subset_closure _ (hset ▸ rfl)⟩, hset ▸ .start⟩

/-- Where the dot is in front of a non-terminal its productions begin. -/
lemma opening (h : p.Stands target c labels st i)
    (hrest : (p.grammar.productions target).rest i = .nonterminal s :: β)
    (hj : (p.grammar.productions target).Opening s j) : p.Stands target c labels st j :=
  ⟨h.path, h.state, Productions.mem_closure_opening h.item hrest hj⟩

/-- With the symbol after the dot on the stack the item has the dot behind it, and keeps its
lookaheads. -/
lemma push (hb : p.grammar.Builds target p.table) (h : p.Stands target c labels st i)
    (hrest : (p.grammar.productions target).rest i = p.grammar.part s :: β)
    (htarget : st.target? (p.grammar.part s) = some dest)
    (hframes : c'.frames = ⟨tree, dest⟩ :: c.frames) :
    ∃ st', p.Stands target c' (s :: labels) st' i.advance ∧ ∀ t,
      (p.grammar.productions target).Lalr (st.kernelSet (p.grammar.productions target)) i t →
      (p.grammar.productions target).Lalr (st'.kernelSet (p.grammar.productions target))
        i.advance t := by
  obtain ⟨st', hst', hset⟩ := hb.exists_rest_of_target (List.mem_of_getElem? h.state) htarget
  refine ⟨st', ⟨?_, ?_, ?_⟩, fun t ht => hset ▸ ht.goto hrest⟩
  · rw [hframes]
    exact ⟨⟨st, h.state, htarget⟩, h.path⟩
  · rw [Configuration.state, hframes]
    exact hst'
  · exact Productions.subset_closure _ (hset ▸ ⟨i, h.item, _, hrest, rfl⟩)

lemma exists_target (hb : p.grammar.Builds target p.table) (h : p.Stands target c labels st i)
    {part : Part} (hrest : (p.grammar.productions target).rest i = part :: β) :
    ∃ dest, st.target? part = some dest :=
  hb.exists_target (List.mem_of_getElem? h.state) h.item hrest

/-- A shift puts the token on the stack and moves the dot over it. -/
lemma shift (hb : p.grammar.Builds target p.table) (h : p.Stands target c labels st i)
    (hrest : (p.grammar.productions target).rest i = p.grammar.part token.symbol :: β)
    (htarget : st.target? (p.grammar.part token.symbol) = some dest)
    (hsees : Sees c (token :: tokens))
    (ha : p.table.action? c.state token.symbol = some (.shift dest)) :
    ∃ c' st', p.Runs 1 c c' ∧ c'.frames = ⟨.leaf token, dest⟩ :: c.frames ∧ Sees c' tokens ∧
      p.Stands target c' (token.symbol :: labels) st' i.advance ∧ ∀ t,
        (p.grammar.productions target).Lalr (st.kernelSet (p.grammar.productions target)) i t →
        (p.grammar.productions target).Lalr (st'.kernelSet (p.grammar.productions target))
          i.advance t := by
  obtain ⟨c', hruns, hframes, hsees'⟩ := hsees.shift ha
  obtain ⟨st', hstands, hlalr⟩ := h.push hb hrest htarget hframes
  exact ⟨c', st', hruns, hframes, hsees', hstands, hlalr⟩

end Stands

end Parser

namespace Operators

open ShiftReduce.Parser

variable {o : Operators} {p : Parser} {tree left right : Tree} {token : Token} {id : RuleId}
  {r : Rule} {tokens : List Token}

/-- The tree may stand above these labels and before this symbol: an operator below it leaves the
tree to its root, and so does an operator ahead. -/
structure Fits (o : Operators) (tree : Tree) (labels : List SymbolId) (s : SymbolId) : Prop where
  below : ∀ op ∈ labels.head?, op ∈ o.symbols ∧ ∀ op' ∈ tree.operator?, o.Second op op'
  ahead : s = SymbolId.eoi ∨ s ∈ o.symbols ∧ ∀ op ∈ tree.operator?, o.First op s

section Fits

variable {s e : SymbolId} {labels rest : List SymbolId}
  (h : o.Fits (.node id e [left, .leaf token, right]) labels s) (hop : token.symbol ∈ o.symbols)

include h hop

/-- Then the left operand may stand above these labels and before the operator. -/
lemma Fits.left_operand (hfirst : ∀ op ∈ left.operator?, op ∈ o.symbols ∧ o.First op token.symbol) :
    o.Fits left labels token.symbol where
  below := fun op hbelow => ⟨(h.below op hbelow).1, fun op' hop' =>
    ((h.below op hbelow).2 _ rfl).of_first (hfirst op' hop').2 (h.below op hbelow).1
      (hfirst op' hop').1⟩
  ahead := .inr ⟨hop, fun op hop' => (hfirst op hop').2⟩

/-- And the right operand may stand above the operator and before what follows the tree. -/
lemma Fits.right_operand (hsecond : ∀ op ∈ right.operator?, o.Second token.symbol op) :
    o.Fits right (token.symbol :: rest) s where
  below := by
    rintro op ⟨⟩
    exact ⟨hop, hsecond⟩
  ahead := h.ahead.imp_right fun hahead => ⟨hahead.1, fun op' hop' =>
    (hahead.2 _ rfl).of_second (hsecond op' hop') hop⟩

end Fits

/-- From any state in which an operand may come next, and where the tree may stand, the parser comes
to have the tree on top of its stack. -/
def Rebuilds (o : Operators) (p : Parser) (tree : Tree) : Prop :=
  ∀ (c : Configuration) (tokens : List Token) (labels : List SymbolId) (st : State) (i : Dotted)
    (β : List Part) (dest : StateId),
    Sees c (tree.yield ++ tokens) →
    p.Stands o.expression c labels st i →
    (p.grammar.productions o.expression).rest i = .nonterminal o.expression :: β →
    st.target? (.nonterminal o.expression) = some dest →
    Follows (p.grammar.productions o.expression) st i β (next tokens) →
    o.Fits tree labels (next tokens) →
    ∃ c', p.Runs tree.size c c' ∧ c'.frames = ⟨tree, dest⟩ :: c.frames ∧ Sees c' tokens

section Rebuild

variable {c c₁ : Configuration} {labels : List SymbolId} {st : State} {i : Dotted} {β : List Part}
  {dest : StateId} (hb : p.grammar.Builds o.expression p.table) (hg : o.Rules p.grammar)
  (hstands : p.Stands o.expression c labels st i)
  (hrest : (p.grammar.productions o.expression).rest i = .nonterminal o.expression :: β)

include hb hg hstands hrest

/-- Where an operand may come next every rule begins, and is followed by what follows the
operand. -/
lemma exists_opening (hr : r ∈ p.grammar.rules)
    (hfollows : Follows (p.grammar.productions o.expression) st i β (next tokens)) :
    ∃ q, (p.grammar.productions o.expression).get? q = some (p.grammar.production r) ∧
      p.Stands o.expression c labels st ⟨q, 0⟩ ∧
      (p.grammar.productions o.expression).Lalr
        (st.kernelSet (p.grammar.productions o.expression)) ⟨q, 0⟩ (next tokens) := by
  obtain ⟨q, hq⟩ := Grammar.exists_productions_get?_of_rule o.expression hr
  have hopening : (p.grammar.productions o.expression).Opening o.expression ⟨q, 0⟩ :=
    ⟨rfl, _, hq, (hg.plain r hr).1⟩
  exact ⟨q, hq, hstands.opening hrest hopening, hfollows.lalr_opening
    (hb.isLalr.reachable st (List.mem_of_getElem? hstands.state)) hstands.item hrest hopening⟩

/-- A reduction puts a node in the place of the frames for its clause. -/
lemma reduce_operand (htarget : st.target? (.nonterminal o.expression) = some dest)
    (hr : p.grammar.rule? r.id = some r) (frames : List Frame)
    (hframes : c₁.frames = frames ++ c.frames) (hlength : frames.length = r.arity)
    (hsees : Sees c₁ tokens)
    (ha : p.table.action? c₁.state (next tokens) = some (.reduce r.id)) :
    ∃ c₂, p.Runs 1 c₁ c₂ ∧ Sees c₂ tokens ∧ c₂.frames =
      ⟨.node r.id o.expression (frames.reverse.map Frame.tree), dest⟩ :: c.frames := by
  obtain ⟨hexpression, haction, -⟩ := hg.plain r (List.mem_of_getElem? hr)
  obtain ⟨dest', hgoto, htarget'⟩ := hb.goto_of_rest hstands.state hstands.item hrest
  cases htarget.symm.trans htarget'
  rw [← hexpression] at hgoto ⊢
  exact hsees.reduce_top hr haction ha hframes hlength hgoto

/-- Over a tree that is rebuilt the dot moves. -/
lemma Rebuilds.push (h : o.Rebuilds p tree) (hsees : Sees c (tree.yield ++ tokens))
    (hfollows : Follows (p.grammar.productions o.expression) st i β (next tokens))
    (hfits : o.Fits tree labels (next tokens)) :
    ∃ c' st' dest, p.Runs tree.size c c' ∧ c'.frames = ⟨tree, dest⟩ :: c.frames ∧ Sees c' tokens ∧
      p.Stands o.expression c' (o.expression :: labels) st' i.advance ∧ ∀ t,
        (p.grammar.productions o.expression).Lalr
          (st.kernelSet (p.grammar.productions o.expression)) i t →
        (p.grammar.productions o.expression).Lalr
          (st'.kernelSet (p.grammar.productions o.expression)) i.advance t := by
  obtain ⟨dest, htarget⟩ := hstands.exists_target hb hrest
  obtain ⟨c', hruns, hframes, hsees'⟩ :=
    h c tokens labels st i β dest hsees hstands hrest htarget hfollows hfits
  rw [← hg.part_expression] at hrest htarget
  obtain ⟨st', hstands', hlalr⟩ := hstands.push hb hrest htarget hframes
  exact ⟨c', st', dest, hruns, hframes, hsees', hstands', hlalr⟩

omit hstands hrest

lemma rebuilds_number (hr : p.grammar.rule? id = some r) (hclause : r.clause = [o.number])
    (hsymbol : token.symbol = o.number) :
    o.Rebuilds p (.node id o.expression [.leaf token]) := by
  intro c tokens labels st i β dest hsees hstands hrest htarget hfollows hfits
  have hmem := List.mem_of_getElem? hr
  have hid := hg.valid.rule_id hr
  subst hid
  obtain ⟨q, hq, hstands₀, hlalr⟩ := exists_opening hb hg hstands hrest hmem hfollows
  have hrest₀ : (p.grammar.productions o.expression).rest ⟨q, 0⟩ = [.terminal o.number] := by
    rw [Productions.rest_eq (i := ⟨q, 0⟩) hq, hg.rhs_number hmem hclause]
    rfl
  -- the number is shifted
  obtain ⟨dest₁, htarget₁⟩ := hstands₀.exists_target hb hrest₀
  have hshift := action?_number hb hg hstands.path hstands.state
    (fun op hop => (hfits.below op hop).1) htarget₁
  have hpart := hg.part_terminal List.mem_cons_self
  rw [← hsymbol] at hshift hpart hrest₀ htarget₁
  have hnumber : Sees c (token :: tokens) := hsees
  obtain ⟨c₁, st₁, hruns₁, hframes₁, hsees₁, hstands₁, hlalr₁⟩ :=
    hstands₀.shift hb (hpart ▸ hrest₀) (hpart ▸ htarget₁) hnumber hshift
  -- and reduced
  have harity : 1 = r.arity := by rw [Rule.arity, hg.symbols_eq hmem, hclause]; rfl
  have hcalls := hb.calls_reduce (List.mem_of_getElem? hstands₁.state) hstands₁.item hq harity
    (hlalr₁ _ hlalr)
  have hreduce := action?_after_number hb hg hstands₁.path hstands₁.state (by rw [hsymbol])
    (hfits.ahead.imp_right And.left) hmem hclause hcalls
  obtain ⟨c₂, hruns₂, hsees₂, hframes₂⟩ := reduce_operand hb hg hstands hrest htarget hr
    [_] hframes₁ harity hsees₁ hreduce
  exact ⟨c₂, hruns₁.trans hruns₂, hframes₂, hsees₂⟩

lemma rebuilds_binary (hlevel : o.InForce p.grammar) (hr : p.grammar.rule? id = some r)
    (hop : token.symbol ∈ o.symbols)
    (hclause : r.clause = [o.expression, token.symbol, o.expression])
    (hgrouped : o.Grouped (.node id o.expression [left, .leaf token, right]))
    (hrebuildsl : o.Rebuilds p left) (hrebuildsr : o.Rebuilds p right)
    (hsymbolsl : ∀ op ∈ left.operator?, op ∈ o.symbols) :
    o.Rebuilds p (.node id o.expression [left, .leaf token, right]) := by
  intro c tokens labels st i β dest hsees hstands hrest htarget hfollows hfits
  have hmem := List.mem_of_getElem? hr
  have hid := hg.valid.rule_id hr
  subst hid
  obtain ⟨-, -, hfirst, hsecond⟩ := grouped_binary.mp hgrouped
  obtain ⟨q, hq, hstands₀, hlalr⟩ := exists_opening hb hg hstands hrest hmem hfollows
  have hrest₀ : (p.grammar.productions o.expression).rest ⟨q, 0⟩ = [.nonterminal o.expression,
      .terminal token.symbol, .nonterminal o.expression] := by
    rw [Productions.rest_eq (i := ⟨q, 0⟩) hq, hg.rhs_operator hmem hop hclause]
    rfl
  have hrest₁ := Productions.rest_advance hrest₀
  have hrest₂ := Productions.rest_advance hrest₁
  have hyield : (Tree.node r.id o.expression [left, .leaf token, right]).yield ++ tokens =
      left.yield ++ (token :: (right.yield ++ tokens)) := by simp [Tree.yield, Tree.yieldAll]
  rw [hyield] at hsees
  -- the left operand, up to the operator
  obtain ⟨c₁, st₁, dest₁, hruns₁, hframes₁, hsees₁, hstands₁, hlalr₁⟩ := hrebuildsl.push hb hg
    hstands₀ hrest₀ hsees (.inl ⟨_, .refl⟩)
    (hfits.left_operand hop fun op hop' => ⟨hsymbolsl op hop', hfirst op hop'⟩)
  -- the operator
  obtain ⟨dest₂, htarget₂⟩ := hstands₁.exists_target hb hrest₁
  have hshift := action?_operator hb hg hstands₁.path hstands₁.state hlevel rfl hop
    (fun op hbelow => (hfits.below op hbelow).2 _ rfl) htarget₂
  have hpart := hg.part_terminal (List.mem_cons_of_mem _ hop)
  obtain ⟨c₂, st₂, hruns₂, hframes₂, hsees₂, hstands₂, hlalr₂⟩ :=
    hstands₁.shift hb (hpart ▸ hrest₁) (hpart ▸ htarget₂) hsees₁ hshift
  -- the right operand
  obtain ⟨c₃, st₃, dest₃, hruns₃, hframes₃, hsees₃, hstands₃, hlalr₃⟩ := hrebuildsr.push hb hg
    hstands₂ hrest₂ hsees₂ (.inr ⟨.refl, hlalr₂ _ (hlalr₁ _ hlalr)⟩)
    (hfits.right_operand hop hsecond)
  -- and the reduction
  have harity : 3 = r.arity := by rw [Rule.arity, hg.symbols_eq hmem, hclause]; rfl
  have hcalls := hb.calls_reduce (List.mem_of_getElem? hstands₃.state) hstands₃.item hq harity
    (hlalr₃ _ (hlalr₂ _ (hlalr₁ _ hlalr)))
  have hreduce := action?_after_operand hb hg hstands₃.path hstands₃.state hlevel rfl hop
    (hfits.ahead.imp_right fun h => ⟨h.1, h.2 _ rfl⟩) hmem hclause hcalls
  obtain ⟨c₄, hruns₄, hsees₄, hframes₄⟩ := reduce_operand hb hg hstands hrest htarget hr
    [_, _, _] (by rw [hframes₃, hframes₂, hframes₁]; rfl) harity hsees₃ hreduce
  refine ⟨c₄, ?_, hframes₄, hsees₄⟩
  have hsize : (Tree.node r.id o.expression [left, .leaf token, right]).size =
      left.size + 1 + right.size + 1 := by
    simp only [Tree.size, Tree.sizeAll]
    omega
  rw [hsize]
  exact ((hruns₁.trans hruns₂).trans hruns₃).trans hruns₄

/-- Every tree that is grouped as it should be is rebuilt. -/
lemma rebuilds_of_grouped (hlevel : o.InForce p.grammar) (h : o.IsExpression p.grammar tree)
    (hgrouped : o.Grouped tree) : o.Rebuilds p tree := by
  induction h with
  | number hr hclause hsymbol => exact rebuilds_number hb hg hr hclause hsymbol
  | binary hr hop hclause hl _ ihl ihr =>
    obtain ⟨hgl, hgr, -⟩ := grouped_binary.mp hgrouped
    exact rebuilds_binary hb hg hlevel hr hop hclause hgrouped (ihl hgl) (ihr hgr)
      fun op => hl.operator_mem

/-- A tree that is grouped as it should be is what the parser returns for its leaves. -/
lemma run_of_grouped (hlevel : o.InForce p.grammar) (h : o.IsExpression p.grammar tree)
    (hgrouped : o.Grouped tree) (fuel : Nat) :
    p.run (tree.size + (fuel + 1)) (.start (tree.yield.map .ok)) = .ok tree := by
  obtain ⟨st, hstands, hlalr⟩ := Stands.start hb (tree.yield.map .ok)
  have hrest : (p.grammar.productions o.expression).rest Dotted.start =
      [.nonterminal o.expression] := by
    rw [Productions.rest_eq hb.proper.start]
    rfl
  have hsees : Sees (.start (tree.yield.map .ok)) (tree.yield ++ []) := by
    simp [Sees, Configuration.start]
  obtain ⟨c, st', dest, hruns, hframes, hsees', hstands', -⟩ :=
    (rebuilds_of_grouped hb hg hlevel h hgrouped).push hb hg hstands hrest hsees
      (.inr ⟨.refl, hlalr⟩) ⟨fun op hbelow => absurd hbelow (by simp), .inl rfl⟩
  have hcalls := hb.calls_accept (List.mem_of_getElem? hstands'.state) hstands'.item
  have haccept := action?_accept hb hg hstands'.path hstands'.state rfl hcalls
  rw [hruns]
  exact hsees'.accept haccept hframes fuel

/-- The steps allowed for a stream are enough for the tree of the tokens it begins with. -/
lemma parse_of_grouped (hlevel : o.InForce p.grammar) (h : o.IsExpression p.grammar tree)
    (hgrouped : o.Grouped tree) {rest : List Lexeme} (hrest : Ending rest) :
    p.parse (tree.yield.map .ok ++ rest) = .ok tree := by
  have hrun := run_append hb (fun r hr => hg.eoi_not_mem hr) hrest
    (run_of_grouped hb hg hlevel h hgrouped 0)
  have hlength : tree.size + 1 ≤
      stepLimit p.grammar (tree.yield.map .ok ++ rest : List Lexeme).length := by
    refine Nat.le_trans ?_ (le_stepLimit _ _)
    rw [List.length_append, List.length_map, h.size]
    omega
  obtain ⟨more, hmore⟩ := Nat.exists_eq_add_of_le hlength
  rw [parse, hmore]
  exact run_add hrun more

end Rebuild

/-- A grammar of operators is not refused. -/
lemma Rules.parser_exists {g : Grammar} (hg : o.Rules g) : ∃ p, g.parser = .ok p := by
  obtain ⟨r, hr, -⟩ := hg.exists_number_rule
  have hexpression : ∃ r ∈ g.rules, r.target = o.expression := ⟨r, hr, (hg.plain r hr).1⟩
  have hdefined : ∀ r ∈ g.rules, ∀ t ∈ r.clause, g.symbols.isNonterminal t = true →
      ∃ r' ∈ g.rules, r'.target = t := by
    intro r hr t ht hnonterminal
    have hsymbol : t = o.expression ∨ t ∈ o.number :: o.symbols := by
      rcases hg.clause_cases hr with hclause | ⟨op, hop, hclause⟩
      · rw [hclause] at ht
        exact .inr (List.mem_singleton.mp ht ▸ List.mem_cons_self)
      · rw [hclause] at ht
        simp only [List.mem_cons, List.not_mem_nil, or_false] at ht
        rcases ht with rfl | rfl | rfl
        · exact .inl rfl
        · exact .inr (List.mem_cons_of_mem _ hop)
        · exact .inl rfl
    rcases hsymbol with rfl | hs
    · exact hexpression
    · exact absurd rfl (SymbolTable.ne_of_kinds hnonterminal (hg.terminal t hs).1)
  obtain ⟨t, ht⟩ := Grammar.exists_table hg.accepts hexpression hdefined
  exact Grammar.parser_exists_of_table ht

section Grammar

variable {g : Grammar} (hg : o.Rules g) (hk : g.KeysFit) (hp : g.parser = .ok p)

include hg hk hp

/-- The grammar of the parser has the same rules, with the levels in force. -/
lemma Rules.builds : p.grammar = g.inheritLevels ∧ p.grammar.Builds o.expression p.table ∧
    o.Rules p.grammar ∧ o.InForce p.grammar := by
  obtain ⟨hgrammar, target, htarget, hb⟩ := Grammar.builds_of_parser_eq_ok hg.valid hk hp
  rw [hg.accepts, Option.some.injEq] at htarget
  subst htarget
  exact ⟨hgrammar, hb, hgrammar ▸ hg.inheritLevels⟩

/-- The parser of a grammar of operators returns a derivation tree for its leaves if that is grouped
as it should be, whatever stands behind the end of input. -/
lemma Rules.parse_leaves {rest : List Lexeme} (hrest : Ending rest) (hd : g.IsDerivation tree)
    (hsymbol : tree.symbol = o.expression) (hgrouped : o.Grouped tree) :
    p.parse (tree.leaves.map .ok ++ rest) = .ok tree := by
  obtain ⟨hgrammar, hb, hg', hlevel⟩ := hg.builds hk hp
  have hd' : p.grammar.IsDerivation tree :=
    hgrammar ▸ Grammar.isDerivation_inheritLevels.mpr hd
  rw [tree.leaves_eq_yield]
  exact parse_of_grouped hb hg' hlevel (hg'.isExpression_iff.mpr ⟨hd', hsymbol⟩) hgrouped hrest

/-- Every chain has such a tree. -/
lemma Rules.exists_parse {rest : List Lexeme} (hrest : Ending rest)
    (hchain : o.IsChain (tokens.map Token.symbol)) :
    ∃ tree, p.parse (tokens.map .ok ++ rest) = .ok tree ∧ o.Grouped tree := by
  obtain ⟨-, hb, hg', hlevel⟩ := hg.builds hk hp
  obtain ⟨tree, htree, hgrouped, rfl⟩ := exists_grouped hg' hchain
  exact ⟨tree, parse_of_grouped hb hg' hlevel htree hgrouped hrest, hgrouped⟩

/-- Whatever the parser returns is a derivation tree of a chain. -/
lemma Rules.isChain_of_parse {input : List Lexeme} (h : p.parse input = .ok tree) :
    g.IsDerivation tree ∧ tree.symbol = o.expression ∧
      o.IsChain (tree.leaves.map Token.symbol) ∧
      ∃ rest, input = tree.leaves.map .ok ++ rest ∧ Ending rest := by
  obtain ⟨hgrammar, hb, hg', -⟩ := hg.builds hk hp
  obtain ⟨hsymbol, hd, hrest⟩ :=
    leaves_of_run hb (fun r hr => hg'.eoi_not_mem hr) (fun r hr => (hg'.plain r hr).2.1) h
  have hchain := (hg'.isExpression_iff.mpr ⟨hd, hsymbol⟩).isChain
  rw [← tree.leaves_eq_yield] at hchain
  exact ⟨Grammar.isDerivation_inheritLevels.mp (hgrammar ▸ hd), hsymbol, hchain, hrest⟩

end Grammar

/-- For any operators, however many and in whatever order their rules stand, the parser accepts the
streams that are numbers with operators between them up to the end of input. What it returns is the
derivation tree in which every operator has the operands that levels and associativities give to
it. -/
theorem Rules.parser_groups {g : Grammar} (hg : o.Rules g) (hk : g.KeysFit) :
    ∃ p, g.parser = .ok p ∧ ∀ input : List Lexeme,
      ((∃ tree, p.parse input = .ok tree) ↔ ∃ (tokens : List Token) (rest : List Lexeme),
        input = tokens.map .ok ++ rest ∧ Ending rest ∧ o.IsChain (tokens.map Token.symbol)) ∧
      ∀ tree, p.parse input = .ok tree ↔ g.IsDerivation tree ∧ tree.symbol = o.expression ∧
        o.Grouped tree ∧ ∃ rest, input = tree.leaves.map .ok ++ rest ∧ Ending rest := by
  obtain ⟨p, hp⟩ := hg.parser_exists
  refine ⟨p, hp, fun input => ⟨⟨?_, ?_⟩, fun tree => ⟨?_, ?_⟩⟩⟩
  · rintro ⟨tree, h⟩
    obtain ⟨-, -, hchain, rest, hinput, hrest⟩ := hg.isChain_of_parse hk hp h
    exact ⟨tree.leaves, rest, hinput, hrest, hchain⟩
  · rintro ⟨tokens, rest, rfl, hrest, hchain⟩
    obtain ⟨tree, h, -⟩ := hg.exists_parse hk hp hrest hchain
    exact ⟨tree, h⟩
  · intro h
    obtain ⟨hd, hsymbol, hchain, rest, rfl, hrest⟩ := hg.isChain_of_parse hk hp h
    -- it is the grouped tree of its leaves, since that is returned for them
    obtain ⟨tree', h', hgrouped⟩ := hg.exists_parse hk hp hrest hchain
    rw [h, Except.ok.injEq] at h'
    exact ⟨hd, hsymbol, h' ▸ hgrouped, rest, rfl, hrest⟩
  · rintro ⟨hd, hsymbol, hgrouped, rest, rfl, hrest⟩
    exact hg.parse_leaves hk hp hrest hd hsymbol hgrouped

/-- Sums and differences, which group to the left, and powers, which bind tighter and group to the
right. -/
def arithmetic : Operators where
  expression := 2
  number := 3
  symbols := [4, 5, 6]
  level := fun op => if op = 6 then 2 else 1
  associativity := fun op => if op = 6 then .right else .left
  nodup := by decide
  sided := by decide
  agree := by decide

end Operators

namespace Grammar

/-- The rules of sums, powers, numbers and differences, in this order. -/
def arithmetic : Grammar where
  name := none
  symbols := ⟨SymbolTable.initial.entries ++ [⟨.nonterminal, "E"⟩, ⟨.terminal, "num"⟩,
    ⟨.terminal, "+"⟩, ⟨.terminal, "-"⟩, ⟨.terminal, "^"⟩]⟩
  rules := [{ Rule.plain 0 2 [2, 4, 2] with arbitration := .reduce }, .plain 1 2 [2, 6, 2],
    .plain 2 2 [3], { Rule.plain 3 2 [2, 5, 2] with arbitration := .reduce }]
  levels := [(4, 1), (5, 1), (6, 2)]
  target := some 2

lemma keysFit_arithmetic : arithmetic.KeysFit := by
  rintro target ⟨⟩
  decide

lemma rules_arithmetic : Operators.arithmetic.Rules arithmetic where
  valid := ⟨⟨_, rfl⟩, rfl, by decide, by decide, by decide, rfl⟩
  accepts := rfl
  terminal := by decide
  clauses := by decide
  plain := by decide
  arbitration := by
    intro r hr op h
    simp only [arithmetic, List.mem_cons, List.not_mem_nil, or_false] at hr
    rcases hr with rfl | rfl | rfl | rfl
    · cases h; rfl
    · cases h; rfl
    · cases h
    · cases h; rfl
  level := by decide

end Grammar

namespace Operators

/-- `1 - 2 ^ 3 ^ 4 + 5` is the sum of the difference `1 - 2 ^ (3 ^ 4)` and `5`. -/
theorem parser_groups_arithmetic : arithmetic.Rules Grammar.arithmetic ∧
    Grammar.arithmetic.KeysFit ∧ ∃ p, Grammar.arithmetic.parser = .ok p ∧
      p.parse [.ok ⟨3, "1", 1, 1⟩, .ok ⟨5, "-", 1, 2⟩, .ok ⟨3, "2", 1, 3⟩, .ok ⟨6, "^", 1, 4⟩,
        .ok ⟨3, "3", 1, 5⟩, .ok ⟨6, "^", 1, 6⟩, .ok ⟨3, "4", 1, 7⟩, .ok ⟨4, "+", 1, 8⟩,
        .ok ⟨3, "5", 1, 9⟩] =
      .ok (.node 0 2
        [.node 3 2
          [.node 2 2 [.leaf ⟨3, "1", 1, 1⟩], .leaf ⟨5, "-", 1, 2⟩,
            .node 1 2
              [.node 2 2 [.leaf ⟨3, "2", 1, 3⟩], .leaf ⟨6, "^", 1, 4⟩,
                .node 1 2
                  [.node 2 2 [.leaf ⟨3, "3", 1, 5⟩], .leaf ⟨6, "^", 1, 6⟩,
                    .node 2 2 [.leaf ⟨3, "4", 1, 7⟩]]]],
          .leaf ⟨4, "+", 1, 8⟩, .node 2 2 [.leaf ⟨3, "5", 1, 9⟩]]) := by
  have hg := Grammar.rules_arithmetic
  have hk := Grammar.keysFit_arithmetic
  obtain ⟨p, hp, hparse⟩ := hg.parser_groups hk
  refine ⟨hg, hk, p, hp, ((hparse _).2 _).mpr ?_⟩
  rw [← and_assoc, ← hg.isExpression_iff]
  have hnumber : ∀ token : Token, token.symbol = 3 →
      arithmetic.IsExpression Grammar.arithmetic (.node 2 2 [.leaf token]) :=
    fun token h => .number rfl rfl h
  refine ⟨?derived, ?grouped, [], ?leaves, .inl rfl⟩
  case derived =>
    exact .binary rfl (by decide) rfl
      (.binary rfl (by decide) rfl (hnumber _ rfl)
        (.binary rfl (by decide) rfl (hnumber _ rfl)
          (.binary rfl (by decide) rfl (hnumber _ rfl) (hnumber _ rfl))))
      (hnumber _ rfl)
  case grouped => simp [grouped_binary, Grouped.number, Tree.operator?, First, Second, arithmetic]
  case leaves =>
    rw [Tree.leaves_eq_yield]
    rfl

end Operators

namespace Parser

/-- A token on which every state fails or reduces is never got past. -/
lemma run_ne_ok_of_no_shift {p : Parser} {c : Configuration} {token : Token} {tokens : List Token}
    (h : ∀ state a, p.table.action? state token.symbol = some a → a = .fail ∨ ∃ id, a = .reduce id)
    (hsees : Sees c (token :: tokens)) (fuel : Nat) (tree : Tree) : p.run fuel c ≠ .ok tree := by
  have hexecuted : ∀ {c token' action}, Sees c (token :: tokens) →
      p.executed c = some (token', action) → action = .fail ∨ ∃ id, action = .reduce id := by
    intro c token' action hsees hexec
    obtain ⟨c₁, hfetch, -⟩ := choose_of_executed hexec
    obtain ⟨s, ha, hs | hreduce⟩ := action_of_executed hexec
    · rw [hs, hsees.symbol_eq hfetch] at ha
      exact h _ _ ha
    · exact .inr hreduce
  induction fuel generalizing c with
  | zero => exact fun hrun => by cases hrun
  | succ fuel ih =>
    rw [run]
    cases hstep : p.step c with
    | failed e => exact fun hrun => by cases hrun
    | accepted tree' =>
      obtain ⟨token', hexec⟩ := executed_of_accepted hstep
      rcases hexecuted hsees hexec with heq | ⟨id, heq⟩ <;> cases heq
    | running c' =>
      obtain ⟨token', action, hexec⟩ := executed_of_step hstep
      have hsees' := hsees.step hexec hstep
      rcases hexecuted hsees hexec with rfl | ⟨id, rfl⟩ <;> exact ih hsees'

end Parser

namespace Operators

/-- Where keys wrap around a number may be refused. -/
lemma sums_refused {n : Nat} (hn : (n + 1) * 4 = wordRange) (number : Token)
    (hnumber : number.symbol = 3) : ∃ p, (Grammar.sums n).parser = .ok p ∧
      ¬ ∃ tree, p.parse [.ok number] = .ok tree := by
  obtain ⟨p, hp⟩ := (Grammar.rules_sums n).parser_exists
  refine ⟨p, hp, ?_⟩
  rintro ⟨tree, h⟩
  obtain ⟨-, ht⟩ := Grammar.parser_eq_ok hp
  have hsees : Parser.Sees (.start [.ok number]) [number] := rfl
  refine Parser.run_ne_ok_of_no_shift (fun state a ha => ?_) hsees _ tree h
  rw [hnumber] at ha
  exact Grammar.sums_action?_number hn ht ha

/-- Where keys wrap around not every chain is accepted, and what is accepted is not a chain if
something stands behind the end of input. -/
theorem chains_sums_arithmetic :
    ((additive 1073741823).Rules (Grammar.sums 1073741823) ∧
      (Grammar.sums 1073741823).symbols.entries.Nodup ∧ (additive 1073741823).IsChain [3] ∧
      ∃ p, (Grammar.sums 1073741823).parser = .ok p ∧
        ¬ ∃ tree, p.parse [.ok ⟨3, "1", 1, 1⟩] = .ok tree) ∧
    arithmetic.Rules Grammar.arithmetic ∧ ¬ arithmetic.IsChain [3, 0, 3] ∧
      ∃ p tree, Grammar.arithmetic.parser = .ok p ∧
        p.parse [.ok ⟨3, "1", 1, 1⟩, .ok ⟨0, "$", 1, 2⟩, .ok ⟨3, "2", 1, 3⟩] = .ok tree := by
  refine ⟨⟨Grammar.rules_sums _, Grammar.nodup_sums _,
    ⟨[], fun _ h => absurd h List.not_mem_nil, rfl⟩, sums_refused (by decide) _ rfl⟩,
    Grammar.rules_arithmetic, ?_, ?_⟩
  · rintro ⟨ops, hops, hw⟩
    cases ops with
    | nil => cases hw
    | cons op ops =>
      cases (List.cons.inj (List.cons.inj hw).2).1
      exact absurd (hops 0 List.mem_cons_self) (by decide)
  · obtain ⟨p, hp⟩ := Grammar.rules_arithmetic.parser_exists
    have hends : Ending [.ok ⟨0, "$", 1, 2⟩, .ok ⟨3, "2", 1, 3⟩] := .inr ⟨_, _, rfl, rfl⟩
    have hchain : arithmetic.IsChain ([⟨3, "1", 1, 1⟩].map Token.symbol) :=
      ⟨[], fun _ h => absurd h List.not_mem_nil, rfl⟩
    obtain ⟨tree, htree, -⟩ :=
      Grammar.rules_arithmetic.exists_parse Grammar.keysFit_arithmetic hp hends hchain
    exact ⟨p, tree, hp, htree⟩

end Operators

end ShiftReduce
