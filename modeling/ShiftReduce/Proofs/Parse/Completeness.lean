import ShiftReduce.Proofs.Parse.Soundness
/-!
# What is derived is accepted

If no clash was met while the table was filled, every cell holds the one action that is called for.
Then the parser rebuilds any derivation tree of its tokens: from a state in which the symbol of a
tree may come next, and with a token ahead that may follow it there, it comes in as many steps as
the tree has nodes to have the tree on top of its stack and the same token ahead.

Main statement: `Parser.run_of_isDerivation`.
-/

namespace ShiftReduce

namespace Parser

/-- The configuration has these tokens before it, and then the end of input. -/
def Sees (c : Configuration) (tokens : List Token) : Prop :=
  match c.held with
  | none => c.input = tokens.map .ok
  | some token => (∃ rest, tokens = token :: rest ∧ c.input = rest.map .ok) ∨
      tokens = [] ∧ c.input = [] ∧ token.symbol = SymbolId.eoi

/-- The symbol of the first token, or the end of input. -/
def next : List Token → SymbolId
  | [] => SymbolId.eoi
  | token :: _ => token.symbol

/-- After a number of steps the parser is in the second configuration. -/
def Runs (p : Parser) (n : Nat) (c c' : Configuration) : Prop :=
  ∀ fuel, p.run (n + fuel) c = p.run fuel c'

variable {p : Parser} {c c' c'' : Configuration} {tokens : List Token} {token : Token}
  {action : Action} {target : SymbolId} {m n : Nat} {st : State} {i : Dotted} {β : List Part}
  {tree : Tree} {forest : List Tree}

lemma Runs.refl (p : Parser) (c : Configuration) : p.Runs 0 c c := fun fuel => by
  rw [Nat.zero_add]

lemma Runs.trans (h : p.Runs m c c') (h' : p.Runs n c' c'') : p.Runs (m + n) c c'' := fun fuel => by
  rw [Nat.add_assoc, h, h']

lemma runs_of_step (h : p.step c = .running c') : p.Runs 1 c c' := fun fuel => by
  rw [Nat.add_comm, run, h]

lemma Sees.fetch (h : Sees c tokens) : ∃ token c₁, c.fetch = .ok (token, c₁) ∧
    token.symbol = next tokens ∧ c₁.held = none ∧
    ((∃ rest, tokens = token :: rest ∧ c₁.input = rest.map .ok) ∨ tokens = [] ∧ c₁.input = []) := by
  rw [Sees] at h
  rw [Configuration.fetch]
  cases hheld : c.held with
  | some token =>
    rw [hheld] at h
    refine ⟨token, { c with held := none }, rfl, ?_, rfl, ?_⟩
    · rcases h with ⟨rest, rfl, -⟩ | ⟨rfl, -, heoi⟩
      · rfl
      · exact heoi
    · exact h.imp_right fun hh => ⟨hh.1, hh.2.1⟩
  | none =>
    rw [hheld] at h
    cases tokens with
    | nil =>
      refine ⟨Token.endOfInput c.finish.1 c.finish.2, c, ?_, rfl, hheld, .inr ⟨rfl, h⟩⟩
      simp only [h, List.map_nil]
    | cons token tokens =>
      refine ⟨token, { c with input := tokens.map .ok, finish := token.finish }, ?_, rfl, hheld,
        .inl ⟨tokens, rfl, rfl⟩⟩
      simp only [h, List.map_cons, hheld]

/-- With an action for the next symbol, that action is executed. -/
lemma Sees.executed (h : Sees c tokens) (ha : p.table.action? c.state (next tokens) = some action) :
    ∃ token, p.executed c = some (token, action) := by
  obtain ⟨token, c₁, hfetch, hnext, -⟩ := h.fetch
  refine ⟨token, ?_⟩
  simp only [Parser.executed, hfetch, choose, state_of_fetch hfetch, hnext, ha]

/-- A shift takes the first token. -/
lemma Sees.shift {dest : StateId} (h : Sees c (token :: tokens))
    (ha : p.table.action? c.state token.symbol = some (.shift dest)) :
    ∃ c', p.Runs 1 c c' ∧ c'.frames = ⟨.leaf token, dest⟩ :: c.frames ∧ Sees c' tokens := by
  obtain ⟨token₁, hexec⟩ := h.executed ha
  obtain ⟨c₁, hfetch, hstep⟩ := step_shift hexec
  obtain ⟨token₂, c₂, hfetch₂, -, hheld, hrest⟩ := h.fetch
  rw [hfetch] at hfetch₂
  cases hfetch₂
  rcases hrest with ⟨rest, htokens, hinput⟩ | ⟨hnil, -⟩
  · cases htokens
    refine ⟨_, runs_of_step hstep, rfl, ?_⟩
    simp only [Sees, hheld, hinput]
  · cases hnil

/-- A reduction leaves the tokens as they are. -/
lemma Sees.reduce {r : Rule} {dest : StateId} (h : Sees c tokens)
    (hr : p.grammar.rule? r.id = some r)
    (ha : p.table.action? c.state (next tokens) = some (.reduce r.id))
    (hgoto : p.table.goto? (Configuration.topState (c.frames.drop r.arity)) r.target = some dest) :
    ∃ c', p.Runs 1 c c' ∧ Sees c' tokens ∧ c'.frames =
      ⟨(r.apply ((c.frames.take r.arity).reverse.map Frame.tree)).toTree, dest⟩ ::
        c.frames.drop r.arity := by
  obtain ⟨token₁, hexec⟩ := h.executed ha
  obtain ⟨c₁, hfetch, ⟨e, hreduce, -⟩ | ⟨frames, fallen, hreduce, hstep⟩⟩ := step_reduce hexec
  · cases hreduce.symm.trans (reduceFrames_eq hr hgoto)
  cases hreduce.symm.trans (reduceFrames_eq hr hgoto)
  obtain ⟨token₂, c₂, hfetch₂, hnext, -, hrest⟩ := h.fetch
  rw [hfetch] at hfetch₂
  cases hfetch₂
  refine ⟨_, runs_of_step hstep, ?_, rfl⟩
  simp only [Sees]
  rcases hrest with hrest | ⟨rfl, hinput⟩
  · exact .inl hrest
  · exact .inr ⟨rfl, hinput, hnext⟩

/-- Without a callback a reduction puts a node in the place of the frames for its clause. -/
lemma Sees.reduce_top {r : Rule} {dest : StateId} {frames below : List Frame} (h : Sees c tokens)
    (hr : p.grammar.rule? r.id = some r) (haction : r.action = none)
    (ha : p.table.action? c.state (next tokens) = some (.reduce r.id))
    (hframes : c.frames = frames ++ below) (hlength : frames.length = r.arity)
    (hgoto : p.table.goto? (Configuration.topState below) r.target = some dest) :
    ∃ c', p.Runs 1 c c' ∧ Sees c' tokens ∧ c'.frames =
      ⟨.node r.id r.target (frames.reverse.map Frame.tree), dest⟩ :: below := by
  have hdrop : c.frames.drop r.arity = below := by rw [hframes, ← hlength, List.drop_left]
  have htake : c.frames.take r.arity = frames := by rw [hframes, ← hlength, List.take_left]
  obtain ⟨c', hruns, hsees, hframes'⟩ := h.reduce hr ha (hdrop.symm ▸ hgoto)
  refine ⟨c', hruns, hsees, ?_⟩
  rw [hframes', hdrop, htake, toTree_apply haction]

/-- Accepting returns the tree on top. -/
lemma Sees.accept {frame : Frame} {below : List Frame} (h : Sees c tokens)
    (ha : p.table.action? c.state (next tokens) = some .accept)
    (hframes : c.frames = frame :: below) (fuel : Nat) : p.run (fuel + 1) c = .ok frame.tree := by
  obtain ⟨token, hexec⟩ := h.executed ha
  rw [run]
  rcases step_accept hexec with ⟨frame', below', hcons, hstep⟩ | ⟨hnil, -⟩
  · cases hframes.symm.trans hcons
    rw [hstep]
  · cases hframes.symm.trans hnil

/-- The tokens are terminals other than `ε`. -/
def Plain (p : Parser) (tokens : List Token) : Prop :=
  ∀ token ∈ tokens, p.grammar.symbols.isTerminal token.symbol = true ∧
    token.symbol ≠ SymbolId.epsilon

lemma Plain.next (hg : p.grammar.Valid) (h : p.Plain tokens) :
    next tokens ≠ SymbolId.epsilon ∧ next tokens < p.grammar.symbols.size := by
  cases tokens with
  | nil => exact ⟨by decide, Nat.lt_of_lt_of_le (by decide) hg.two_le_size⟩
  | cons token tokens =>
    obtain ⟨hterminal, hne⟩ := h token List.mem_cons_self
    exact ⟨hne, SymbolTable.lt_size_of_isTerminal hterminal⟩

/-! ## Derivation trees and productions -/

/-- The roots of trees that are derivations of parts derive the leaves of all the trees. -/
lemma derives_forest (ps : Productions) (g : Grammar) (h : ∀ tree ∈ forest,
    ps.Derives [g.part tree.symbol] (tree.yield.map fun token => .terminal token.symbol)) :
    ps.Derives (forest.map fun tree => g.part tree.symbol)
      ((Tree.yieldAll forest).map fun token => .terminal token.symbol) := by
  induction forest with
  | nil => exact .refl
  | cons tree forest ih =>
    obtain ⟨htree, hforest⟩ := List.forall_mem_cons.mp h
    rw [List.map_cons, Tree.yieldAll, List.map_append]
    exact htree.append (ih hforest)

/-- A derivation tree, read as a derivation of parts. -/
lemma derives_tree (hb : p.grammar.Builds target p.table) (h : p.grammar.IsDerivation tree) :
    (p.grammar.productions target).Derives [p.grammar.part tree.symbol]
      (tree.yield.map fun token => .terminal token.symbol) := by
  induction h with
  | leaf hterminal =>
    rw [Tree.symbol, Tree.yield, Grammar.part_eq_terminal_of_isTerminal hterminal]
    exact .refl
  | @node id r children hr hsymbols _ ih =>
    have hmem := List.mem_of_getElem? hr
    obtain ⟨q, hq⟩ := Grammar.exists_productions_get?_of_rule target hmem
    have hrule := Productions.Derives.of_production hq
    have hrhs : (p.grammar.production r).rhs =
        children.map fun child => p.grammar.part child.symbol := by
      rw [Grammar.production, ← hsymbols, List.map_map]
      rfl
    rw [hrhs] at hrule
    rw [Tree.symbol, Grammar.part_eq_nonterminal (hb.valid.target_nonterminal r hmem)]
    exact hrule.trans (derives_forest _ _ ih)

/-- The terminal may come next where these parts come next: it begins them, or they can vanish and
it is a lookahead of the item. -/
def Follows (ps : Productions) (st : State) (i : Dotted) (β : List Part) (s : SymbolId) : Prop :=
  ps.Begins β s ∨ ps.Nullable β ∧ ps.Lalr (st.kernelSet ps) i s

/-- What follows the non-terminal after the dot is a lookahead of the items that begin its
productions. -/
lemma Follows.lalr_opening {ps : Productions} {s t : SymbolId} {j : Dotted}
    (hK : ps.ReachableKernel (st.kernelSet ps)) (hi : i ∈ ps.closure (st.kernelSet ps))
    (hrest : ps.rest i = .nonterminal s :: β) (hj : ps.Opening s j) (h : Follows ps st i β t) :
    ps.Lalr (st.kernelSet ps) j t := by
  rcases h with hbegins | ⟨hnullable, hlalr⟩
  · exact .ahead hK hi hrest hj hbegins
  · exact hlalr.inherited hrest hj hnullable

/-- What follows a complete item is one of its lookaheads. -/
lemma Follows.lalr {ps : Productions} {t : SymbolId} (h : Follows ps st i [] t) :
    ps.Lalr (st.kernelSet ps) i t := by
  rcases h with ⟨γ, hγ⟩ | ⟨-, hlalr⟩
  · cases Productions.Derives.eq_of_terminals (w := []) hγ
  · exact hlalr

/-- What follows a forest follows in front of it too, with the leaves of the forest before it. -/
lemma Follows.in_front (hb : p.grammar.Builds target p.table)
    (hforest : ∀ tree ∈ forest, p.grammar.IsDerivation tree)
    (h : Follows (p.grammar.productions target) st i β (next tokens)) :
    Follows (p.grammar.productions target) st i
      ((forest.map fun tree => p.grammar.part tree.symbol) ++ β)
      (next (Tree.yieldAll forest ++ tokens)) := by
  have hderives := derives_forest (p.grammar.productions target) p.grammar fun tree htree =>
    derives_tree hb (hforest tree htree)
  cases hyield : Tree.yieldAll forest with
  | nil =>
    rw [hyield] at hderives
    have hnullable : (p.grammar.productions target).Nullable
        (forest.map fun tree => p.grammar.part tree.symbol) := hderives
    rw [List.nil_append]
    exact h.imp hnullable.begins_append fun hh => ⟨hnullable.append hh.1, hh.2⟩
  | cons token rest =>
    rw [hyield] at hderives
    exact .inl (Productions.Begins.append_right ⟨_, hderives⟩ β)

/-! ## Rebuilding a tree -/

/-- From any state in which the root of the tree may come next, and with something ahead that may
follow it, the parser comes to have the tree on top of its stack. -/
def Rebuilds (p : Parser) (target : SymbolId) (tree : Tree) : Prop :=
  ∀ (c : Configuration) (tokens : List Token) (st : State) (i : Dotted) (β : List Part)
    (dest : StateId),
    Sees c (tree.yield ++ tokens) → p.Plain (tree.yield ++ tokens) →
    (p.grammar.automatonOf target).states[c.state]? = some st →
    i ∈ (p.grammar.productions target).closure (st.kernelSet (p.grammar.productions target)) →
    (p.grammar.productions target).rest i = p.grammar.part tree.symbol :: β →
    st.target? (p.grammar.part tree.symbol) = some dest →
    Follows (p.grammar.productions target) st i β (next tokens) →
    ∃ c', p.Runs tree.size c c' ∧ c'.frames = ⟨tree, dest⟩ :: c.frames ∧ Sees c' tokens

section Rebuild

variable (hb : p.grammar.Builds target p.table) (hconflicts : p.table.conflicts = [])
  (hactions : ∀ r ∈ p.grammar.rules, r.action = none)

include hb

include hconflicts in
lemma rebuilds_leaf (hterminal : p.grammar.symbols.isTerminal token.symbol = true) :
    p.Rebuilds target (.leaf token) := by
  intro c tokens st i β dest hsees hplain hst hi hrest htarget _
  have hpart : p.grammar.part token.symbol = .terminal token.symbol :=
    Grammar.part_eq_terminal_of_isTerminal hterminal
  rw [Tree.symbol, hpart] at htarget
  obtain ⟨hne, hlt⟩ := hplain.next hb.valid
  have hcalls := (hb.calls_shift_iff (List.mem_of_getElem? hst)).mpr htarget
  exact hsees.shift (hb.action_of_calls hconflicts hst hcalls hne hlt)

/-- A forest is rebuilt tree by tree. -/
lemma runs_forest
    (hforest : ∀ tree ∈ forest, p.grammar.IsDerivation tree ∧ p.Rebuilds target tree)
    (hsees : Sees c (Tree.yieldAll forest ++ tokens))
    (hplain : p.Plain (Tree.yieldAll forest ++ tokens))
    (hst : (p.grammar.automatonOf target).states[c.state]? = some st)
    (hi : i ∈ (p.grammar.productions target).closure (st.kernelSet (p.grammar.productions target)))
    (hrest : (p.grammar.productions target).rest i =
      (forest.map fun tree => p.grammar.part tree.symbol) ++ β)
    (hfollows : Follows (p.grammar.productions target) st i β (next tokens)) :
    ∃ c' frames st', p.Runs (Tree.sizeAll forest) c c' ∧ c'.frames = frames ++ c.frames ∧
      frames.reverse.map Frame.tree = forest ∧ Sees c' tokens ∧
      (p.grammar.automatonOf target).states[c'.state]? = some st' ∧
      ⟨i.production, i.dot + forest.length⟩ ∈ (p.grammar.productions target).closure
        (st'.kernelSet (p.grammar.productions target)) ∧
      Follows (p.grammar.productions target) st' ⟨i.production, i.dot + forest.length⟩ β
        (next tokens) := by
  induction forest generalizing c st i with
  | nil => exact ⟨c, [], st, .refl p c, rfl, rfl, hsees, hst, hi, hfollows⟩
  | cons tree forest ih =>
    obtain ⟨⟨htree, hrebuilds⟩, hforest⟩ := List.forall_mem_cons.mp hforest
    have hmem := List.mem_of_getElem? hst
    rw [Tree.yieldAll, List.append_assoc] at hsees hplain
    rw [List.map_cons, List.cons_append] at hrest
    obtain ⟨dest, htarget⟩ := hb.exists_target hmem hi hrest
    obtain ⟨c₁, hruns₁, hframes₁, hsees₁⟩ := hrebuilds c _ st i _ dest hsees hplain hst hi hrest
      htarget (hfollows.in_front hb fun tree htree => (hforest tree htree).1)
    -- with the first tree on the stack, the item has its dot behind the root of that tree
    obtain ⟨st₁, hst₁, hset₁⟩ := hb.exists_rest_of_target hmem htarget
    have htop : c₁.state = dest := by rw [Configuration.state, hframes₁]; rfl
    have hi₁ : i.advance ∈ (p.grammar.productions target).closure
        (st₁.kernelSet (p.grammar.productions target)) :=
      Productions.subset_closure _ (hset₁ ▸ ⟨i, hi, _, hrest, rfl⟩)
    have hfollows₁ : Follows (p.grammar.productions target) st₁ i.advance β (next tokens) :=
      hfollows.imp id fun hh => ⟨hh.1, hset₁ ▸ hh.2.goto hrest⟩
    obtain ⟨c₂, frames₂, st₂, hruns₂, hframes₂, htrees₂, hsees₂, hst₂, hi₂, hfollows₂⟩ :=
      ih hforest hsees₁ (fun t ht => hplain t (List.mem_append_right _ ht)) (htop ▸ hst₁) hi₁
        (Productions.rest_advance hrest) hfollows₁
    have hdot : i.dot + (tree :: forest).length = i.advance.dot + forest.length := by
      simp only [List.length_cons, Dotted.advance]
      omega
    refine ⟨c₂, frames₂ ++ [⟨tree, dest⟩], st₂, hruns₁.trans hruns₂, ?_, ?_, hsees₂, hst₂, ?_, ?_⟩
    · rw [hframes₂, hframes₁, List.append_assoc]
      rfl
    · rw [List.reverse_append, List.map_append, htrees₂]
      rfl
    · rw [hdot]
      exact hi₂
    · rw [hdot]
      exact hfollows₂

include hconflicts hactions

/-- The children of a node are rebuilt from the beginning of its rule, and then reduced. -/
lemma rebuilds_node {r : Rule} {children : List Tree} (hr : p.grammar.rule? r.id = some r)
    (hsymbols : children.map Tree.symbol = r.symbols)
    (hchildren : ∀ child ∈ children, p.grammar.IsDerivation child ∧ p.Rebuilds target child) :
    p.Rebuilds target (.node r.id r.target children) := by
  intro c tokens st i β dest hsees hplain hst hi hrest htarget hfollows
  have hmem := List.mem_of_getElem? hst
  have hrule := List.mem_of_getElem? hr
  have hreachable := hb.isLalr.reachable st hmem
  have hpart : p.grammar.part r.target = .nonterminal r.target :=
    Grammar.part_eq_nonterminal (hb.valid.target_nonterminal r hrule)
  rw [Tree.symbol, hpart] at hrest htarget
  rw [Tree.yield] at hsees hplain
  -- the item that begins the rule of the node, and the token ahead as its lookahead
  obtain ⟨q, hq⟩ := Grammar.exists_productions_get?_of_rule target hrule
  have hopening : (p.grammar.productions target).Opening r.target ⟨q, 0⟩ :=
    ⟨rfl, _, hq, rfl⟩
  have hj := Productions.mem_closure_opening hi hrest hopening
  have hlookahead := hfollows.lalr_opening hreachable hi hrest hopening
  have hrhs : (p.grammar.productions target).rest ⟨q, 0⟩ =
      (children.map fun child => p.grammar.part child.symbol) ++ [] := by
    rw [Productions.rest_eq (i := ⟨q, 0⟩) hq, Grammar.production, ← hsymbols, List.map_map,
      List.append_nil]
    rfl
  obtain ⟨c₁, frames, st₁, hruns, hframes, htrees, hsees₁, hst₁, hi₁, hfollows₁⟩ :=
    runs_forest hb hchildren hsees hplain hst hj hrhs (.inr ⟨.refl, hlookahead⟩)
  have hlength : children.length = r.arity := by
    rw [Rule.arity, ← hsymbols, List.length_map]
  have hcalls :=
    hb.calls_reduce (List.mem_of_getElem? hst₁) hi₁ hq (by simpa using hlength) hfollows₁.lalr
  have hplain₁ : p.Plain tokens := fun t ht => hplain t (List.mem_append_right _ ht)
  obtain ⟨hne, hlt⟩ := hplain₁.next hb.valid
  have haction := hb.action_of_calls hconflicts hst₁ hcalls hne hlt
  -- the frames of the children are those that the reduction takes
  have hframesLength : frames.length = r.arity := by
    rw [← hlength, ← htrees, List.length_map, List.length_reverse]
  obtain ⟨dest', hgoto, htarget'⟩ := hb.goto_of_rest hst hi hrest
  cases htarget.symm.trans htarget'
  obtain ⟨c₂, hruns₂, hsees₂, hframes₂⟩ :=
    hsees₁.reduce_top hr (hactions r hrule) haction hframes hframesLength hgoto
  refine ⟨c₂, ?_, htrees ▸ hframes₂, hsees₂⟩
  have hsize : (Tree.node r.id r.target children).size = Tree.sizeAll children + 1 := by
    rw [Tree.size, Nat.add_comm]
  rw [hsize]
  exact hruns.trans hruns₂

/-- Every derivation tree is rebuilt. -/
lemma rebuilds_of_isDerivation (h : p.grammar.IsDerivation tree) : p.Rebuilds target tree := by
  induction h with
  | leaf hterminal => exact rebuilds_leaf hb hconflicts hterminal
  | @node id r children hr hsymbols hchildren ih =>
    have hid : r.id = id := hb.valid.rule_id hr
    subst hid
    exact rebuilds_node hb hconflicts hactions hr hsymbols fun child hchild =>
      ⟨hchildren child hchild, ih child hchild⟩

/-- A derivation tree for the accepted symbol is what the parser returns for its leaves, after one
step for every node and one more. -/
lemma run_of_isDerivation (h : p.grammar.IsDerivation tree) (hsymbol : tree.symbol = target)
    (hplain : p.Plain tree.yield) (fuel : Nat) :
    p.run (tree.size + (fuel + 1)) (.start (tree.yield.map .ok)) = .ok tree := by
  obtain ⟨st, hst, hset⟩ := hb.isLalr.start
  have hmem := List.mem_of_getElem? hst
  have hi : Dotted.start ∈ (p.grammar.productions target).closure
      (st.kernelSet (p.grammar.productions target)) :=
    Productions.subset_closure _ (hset ▸ rfl)
  have hpart : p.grammar.part target = .nonterminal target :=
    Grammar.part_eq_nonterminal (hb.valid.isNonterminal_target hb.accepts)
  have hrest : (p.grammar.productions target).rest Dotted.start =
      (([tree].map fun tree => p.grammar.part tree.symbol) ++ []) := by
    rw [Productions.rest_eq hb.proper.start, List.map_singleton, hsymbol, hpart]
    rfl
  have hlalr : (p.grammar.productions target).Lalr
      (st.kernelSet (p.grammar.productions target)) Dotted.start SymbolId.eoi := hset ▸ .start
  have hforest : ∀ child ∈ [tree], p.grammar.IsDerivation child ∧ p.Rebuilds target child :=
    List.forall_mem_singleton.mpr ⟨h, rebuilds_of_isDerivation hb hconflicts hactions h⟩
  have hsees : Sees (.start (tree.yield.map .ok)) (Tree.yieldAll [tree] ++ []) := by
    simp [Sees, Configuration.start, Tree.yieldAll]
  have hplain' : p.Plain (Tree.yieldAll [tree] ++ []) := by simpa [Tree.yieldAll] using hplain
  obtain ⟨c, frames, st', hruns, hframes, htrees, hsees', hst', hi', -⟩ :=
    runs_forest hb hforest hsees hplain' hst hi hrest (.inr ⟨.refl, hlalr⟩)
  have hcalls := hb.calls_accept (List.mem_of_getElem? hst') hi'
  have haction := hb.action_of_calls hconflicts hst' hcalls (by decide) hb.proper.eoi_lt
  have hsize : Tree.sizeAll [tree] = tree.size := by simp [Tree.sizeAll]
  obtain ⟨frame, hframe, rfl⟩ := List.map_eq_singleton_iff.mp htrees
  -- the tree is alone on the stack, so it is what accepting returns
  have hframes : c.frames = [frame] := by
    rw [hframes, List.reverse_eq_iff.mp hframe]
    rfl
  rw [← hsize, hruns]
  exact hsees'.accept haction hframes fuel

end Rebuild

end Parser

end ShiftReduce
