import ShiftReduce.Proofs.Parse.Completeness
/-!
# Across a tree

What a parser does while it builds a tree hangs on its table, on the state it starts from and on the
symbol behind the tree. So the table alone can be asked where it comes to across a tree: a leaf is
shifted, and a node is crossed by crossing its children, reducing by its rule and following the goto
for its symbol. The answer is found by recursion on the tree. If there is one, the parser builds the
tree on top of whatever is on its stack, in as many steps as the tree has nodes.

Main statement: `Parser.run_of_across`.
-/

namespace ShiftReduce

/-- The symbol of the first leaf of some trees, or else the symbol behind them. -/
def Tree.ahead (trees : List Tree) (behind : SymbolId) : SymbolId :=
  match yieldAll trees with
  | [] => behind
  | token :: _ => token.symbol

namespace ActionTable

/-- The state entered by shifting a symbol, if it is to be shifted. -/
def shift? (t : ActionTable) (state : StateId) (s : SymbolId) : Option StateId :=
  match t.action? state s with
  | some (.shift dest) => some dest
  | _ => none

mutual

/-- The state that a table comes to across a tree, with a symbol behind the tree. -/
def across (t : ActionTable) : SymbolId → Tree → StateId → Option StateId
  | _, .leaf token, state => t.shift? state token.symbol
  | behind, .node id s children, state =>
    (acrossAll t behind children state).bind fun last =>
      if t.action? last behind = some (.reduce id) then t.goto? state s else none

/-- The state that a table comes to across a row of trees, with a symbol behind the last of them. -/
def acrossAll (t : ActionTable) : SymbolId → List Tree → StateId → Option StateId
  | _, [], state => some state
  | behind, tree :: rest, state =>
    (across t (Tree.ahead rest behind) tree state).bind (acrossAll t behind rest)

end

variable {t : ActionTable} {state last dest : StateId} {s behind : SymbolId} {id : RuleId}
  {tree : Tree} {trees : List Tree}

lemma shift?_eq_some_iff :
    t.shift? state s = some dest ↔ t.action? state s = some (.shift dest) := by
  rw [shift?]
  split
  · next dest' ha => rw [ha, Option.some.injEq, Option.some.injEq, Action.shift.injEq]
  · next hne => exact ⟨fun h => (nomatch h), fun h => absurd h (hne dest)⟩

lemma across_node (h : t.acrossAll behind trees state = some last)
    (hreduce : t.action? last behind = some (.reduce id)) (hgoto : t.goto? state s = some dest) :
    t.across behind (.node id s trees) state = some dest := by
  rw [across, h, Option.bind_some, if_pos hreduce, hgoto]

lemma exists_of_across_node (h : t.across behind (.node id s trees) state = some dest) :
    ∃ last, t.acrossAll behind trees state = some last ∧
      t.action? last behind = some (.reduce id) ∧ t.goto? state s = some dest := by
  rw [across] at h
  obtain ⟨last, hlast, h⟩ := Option.bind_eq_some_iff.mp h
  split at h
  · next hreduce => exact ⟨last, hlast, hreduce, h⟩
  · cases h

lemma acrossAll_cons (h : t.across (Tree.ahead trees behind) tree state = some last)
    (hrest : t.acrossAll behind trees last = some dest) :
    t.acrossAll behind (tree :: trees) state = some dest := by
  rw [acrossAll, h, Option.bind_some, hrest]

lemma acrossAll_leaf {token : Token} (h : t.shift? state token.symbol = some last)
    (hrest : t.acrossAll behind trees last = some dest) :
    t.acrossAll behind (.leaf token :: trees) state = some dest :=
  acrossAll_cons (by rw [across, h]) hrest

end ActionTable

namespace Parser

variable {p : Parser} {c : Configuration} {tokens : List Token} {tree : Tree} {forest : List Tree}
  {dest last : StateId}

lemma next_append (forest : List Tree) (tokens : List Token) :
    next (Tree.yieldAll forest ++ tokens) = Tree.ahead forest (next tokens) := by
  rw [Tree.ahead]
  cases Tree.yieldAll forest <;> rfl

/-- Where the table comes to some state across the tree, the parser comes to have the tree on top of
its stack, with this state. -/
def Crosses (p : Parser) (tree : Tree) : Prop :=
  ∀ (c : Configuration) (tokens : List Token) (dest : StateId),
    Sees c (tree.yield ++ tokens) → p.table.across (next tokens) tree c.state = some dest →
    ∃ c', p.Runs tree.size c c' ∧ c'.frames = ⟨tree, dest⟩ :: c.frames ∧ Sees c' tokens

/-- A forest is crossed tree by tree. -/
lemma crosses_forest (hforest : ∀ tree ∈ forest, p.Crosses tree)
    (hsees : Sees c (Tree.yieldAll forest ++ tokens))
    (h : p.table.acrossAll (next tokens) forest c.state = some last) :
    ∃ c' frames, p.Runs (Tree.sizeAll forest) c c' ∧ c'.frames = frames ++ c.frames ∧
      frames.reverse.map Frame.tree = forest ∧ Sees c' tokens ∧ c'.state = last := by
  induction forest generalizing c with
  | nil => exact ⟨c, [], .refl p c, rfl, rfl, hsees, Option.some.inj h⟩
  | cons tree forest ih =>
    obtain ⟨htree, hforest⟩ := List.forall_mem_cons.mp hforest
    rw [Tree.yieldAll, List.append_assoc] at hsees
    rw [ActionTable.acrossAll] at h
    obtain ⟨dest, hdest, hlast⟩ := Option.bind_eq_some_iff.mp h
    rw [← next_append] at hdest
    obtain ⟨c₁, hruns₁, hframes₁, hsees₁⟩ := htree c _ dest hsees hdest
    have hstate : c₁.state = dest := by rw [Configuration.state, hframes₁]; rfl
    obtain ⟨c₂, frames, hruns₂, hframes₂, htrees, hsees₂, hlast₂⟩ :=
      ih hforest hsees₁ (hstate ▸ hlast)
    refine ⟨c₂, frames ++ [⟨tree, dest⟩], hruns₁.trans hruns₂, ?_, ?_, hsees₂, hlast₂⟩
    · rw [hframes₂, hframes₁, List.append_assoc]
      rfl
    · rw [List.reverse_append, List.map_append, htrees]
      rfl

variable (hg : p.grammar.Valid) (hactions : ∀ r ∈ p.grammar.rules, r.action = none)

include hg hactions

/-- Every derivation tree is crossed. -/
lemma crosses_of_isDerivation (h : p.grammar.IsDerivation tree) : p.Crosses tree := by
  induction h with
  | leaf _ =>
    intro c tokens dest hsees h
    rw [ActionTable.across] at h
    exact hsees.shift (ActionTable.shift?_eq_some_iff.mp h)
  | @node id r children hr hsymbols _ ih =>
    intro c tokens dest hsees h
    have hid : r.id = id := hg.rule_id hr
    subst hid
    obtain ⟨last, hlast, hreduce, hgoto⟩ := ActionTable.exists_of_across_node h
    obtain ⟨c₁, frames, hruns₁, hframes₁, rfl, hsees₁, rfl⟩ := crosses_forest ih hsees hlast
    have hlength : frames.length = r.arity := by
      rw [Rule.arity, ← hsymbols, List.length_map, List.length_map, List.length_reverse]
    obtain ⟨c₂, hruns₂, hsees₂, hframes₂⟩ := hsees₁.reduce_top hr
      (hactions r (List.mem_of_getElem? hr)) hreduce hframes₁ hlength hgoto
    refine ⟨c₂, ?_, hframes₂, hsees₂⟩
    rw [Tree.size, Nat.add_comm]
    exact hruns₁.trans hruns₂

/-- A derivation tree is what the parser returns for its leaves, if the table comes to accept across
it. -/
lemma run_of_across (h : p.grammar.IsDerivation tree)
    (hacross : p.table.across SymbolId.eoi tree 0 = some dest)
    (haccept : p.table.action? dest SymbolId.eoi = some .accept) (fuel : Nat) :
    p.run (tree.size + (fuel + 1)) (.start (tree.yield.map .ok)) = .ok tree := by
  have hsees : Sees (.start (tree.yield.map .ok)) (tree.yield ++ []) := by
    simp [Sees, Configuration.start]
  obtain ⟨c, hruns, hframes, hsees'⟩ :=
    crosses_of_isDerivation hg hactions h _ [] dest hsees hacross
  have hstate : c.state = dest := by rw [Configuration.state, hframes]; rfl
  rw [hruns]
  exact hsees'.accept (hstate ▸ haccept) hframes fuel

end Parser

end ShiftReduce
