import ShiftReduce.Proofs.Grammar.Derivation
import ShiftReduce.Proofs.Parse.Run
/-!
# What a parser accepts is derived

Without callbacks the trees on the stack have the labels of the stack at their roots. They are
derivation trees, and their leaves, followed by the token held back and the rest of the stream, are
the stream. Where no clause mentions the end of input, that token is never shifted, and it is the
one on which the parser accepts.

Main statement: `Grammar.Valid.parser_sound`.
-/

namespace ShiftReduce

namespace Parser

/-- The leaves of the trees on a stack, bottom first. -/
def leavesOf (frames : List Frame) : List Token :=
  Tree.yieldAll (frames.reverse.map Frame.tree)

lemma leavesOf_cons (frame : Frame) (frames : List Frame) :
    leavesOf (frame :: frames) = leavesOf frames ++ frame.tree.yield := by
  simp [leavesOf, Tree.yieldAll_append, Tree.yieldAll]

lemma leavesOf_eq_drop (frames : List Frame) (n : Nat) :
    leavesOf frames =
      leavesOf (frames.drop n) ++ Tree.yieldAll ((frames.take n).reverse.map Frame.tree) := by
  rw [leavesOf, leavesOf, ← Tree.yieldAll_append, ← List.map_append, ← List.reverse_append,
    List.take_append_drop]

/-- Without a callback a reduction makes a plain node. -/
lemma toTree_apply {r : Rule} (h : r.action = none) (trees : List Tree) :
    (r.apply trees).toTree = .node r.id r.target trees := by
  simp only [Rule.apply, h, Node.toTree]

/-- The stream is what was consumed, then the token, then the rest; or all of it was consumed, and
the token is the end of input. -/
def Looking (input : List Lexeme) (consumed : List Token) (token : Token) (rest : List Lexeme) :
    Prop :=
  input = consumed.map .ok ++ .ok token :: rest ∨
    input = consumed.map .ok ∧ rest = [] ∧ token.symbol = SymbolId.eoi

/-- A configuration that has shifted these tokens of the stream. -/
def Consumed (input : List Lexeme) (consumed : List Token) (c : Configuration) : Prop :=
  match c.held with
  | none => input = consumed.map .ok ++ c.input
  | some token => Looking input consumed token c.input

/-- The trees on a stack are derivation trees for its labels. -/
structure Derived (g : Grammar) (frames : List Frame) (labels : List SymbolId) : Prop where
  symbols : frames.map (fun frame => frame.tree.symbol) = labels
  derivations : ∀ frame ∈ frames, g.IsDerivation frame.tree

/-- The trees on the stack are derivation trees for the labels, and their leaves are the tokens that
were shifted, none of them the end of input. -/
structure Traces (g : Grammar) (input : List Lexeme) (c : Configuration) (labels : List SymbolId) :
    Prop extends Derived g c.frames labels where
  consumed : Consumed input (leavesOf c.frames) c
  not_eoi : ∀ token ∈ leavesOf c.frames, token.symbol ≠ SymbolId.eoi

variable {p : Parser} {c c' : Configuration} {token : Token} {action : Action} {target : SymbolId}
  {labels : List SymbolId} {input : List Lexeme} {consumed : List Token}

lemma Consumed.fetch (h : Consumed input consumed c) (hfetch : c.fetch = .ok (token, c')) :
    Looking input consumed token c'.input ∧ c'.held = none := by
  rw [Consumed] at h
  rw [Configuration.fetch] at hfetch
  split at hfetch
  · next token' hheld =>
    cases hfetch
    rw [hheld] at h
    exact ⟨h, rfl⟩
  · next hheld =>
    rw [hheld] at h
    split at hfetch
    · next token' rest hinput =>
      cases hfetch
      rw [hinput] at h
      exact ⟨.inl h, hheld⟩
    · cases hfetch
    · next hinput =>
      cases hfetch
      rw [hinput, List.append_nil] at h
      exact ⟨.inr ⟨h, hinput, rfl⟩, hheld⟩

/-! ## Stacks of derivation trees -/

section Derived

variable {g : Grammar} {frames : List Frame}

/-- A shift puts a leaf on the stack. -/
lemma Derived.shift (hd : Derived g frames labels)
    (hterminal : g.symbols.isTerminal token.symbol = true) (dest : StateId) :
    Derived g (⟨.leaf token, dest⟩ :: frames) (token.symbol :: labels) := by
  refine ⟨?_, List.forall_mem_cons.mpr ⟨.leaf hterminal, hd.derivations⟩⟩
  rw [List.map_cons, hd.symbols]
  rfl

/-- A reduction puts the trees of its clause under one node. -/
lemma Derived.reduce (hd : Derived g frames labels) {id : RuleId} {r : Rule}
    (hr : g.rule? id = some r) (hlabels : labels.take r.arity = r.symbols.reverse)
    (dest : StateId) :
    Derived g (⟨.node id r.target ((frames.take r.arity).reverse.map Frame.tree), dest⟩ ::
      frames.drop r.arity) (r.target :: labels.drop r.arity) := by
  refine ⟨?symbols, List.forall_mem_cons.mpr ⟨.node hr ?roots ?subtrees, ?below⟩⟩
  case symbols =>
    rw [List.map_cons, List.map_drop, hd.symbols]
    rfl
  case roots =>
    rw [List.map_map, List.map_reverse, List.map_take]
    show ((frames.map fun frame => frame.tree.symbol).take r.arity).reverse = r.symbols
    rw [hd.symbols, hlabels, List.reverse_reverse]
  case subtrees =>
    intro child hchild
    obtain ⟨frame, hframe, rfl⟩ := List.mem_map.mp hchild
    exact hd.derivations frame (List.mem_of_mem_take (List.mem_reverse.mp hframe))
  case below => exact fun frame hframe => hd.derivations frame (List.mem_of_mem_drop hframe)

end Derived

section Step

variable (hb : p.grammar.Builds target p.table)
  (hpath : (p.grammar.automatonOf target).Path p.grammar labels c.frames)
  (hactions : ∀ r ∈ p.grammar.rules, r.action = none)
  (heoi : ∀ r ∈ p.grammar.rules, SymbolId.eoi ∉ r.clause)

include hb hpath

/-- Only terminals of clauses are shifted. -/
lemma shift_clause {dest : StateId} (hexec : p.executed c = some (token, .shift dest)) :
    p.grammar.symbols.isTerminal token.symbol = true ∧
      ∃ r ∈ p.grammar.rules, token.symbol ∈ r.clause := by
  obtain ⟨st, hst⟩ := hb.exists_topState hpath
  have hmem := List.mem_of_getElem? hst
  obtain ⟨s, ha, hs⟩ := action_of_executed hexec
  have hs : s = token.symbol := hs.resolve_right (by simp)
  subst hs
  have hcalls := (hb.calls_of_action hst ha).resolve_left (by simp)
  have htarget := (hb.calls_shift_iff hmem).mp hcalls
  obtain ⟨-, -, ⟨_, i, -, β, hrest, -⟩, -⟩ := (hb.isLalr.goto st hmem _ dest).mp htarget
  obtain ⟨prod, hp, hpart, -⟩ := Productions.exists_production_of_rest hrest
  have hpart := List.mem_of_getElem? hpart
  have hterminal : p.grammar.symbols.isNonterminal token.symbol = false := by
    have heq : p.grammar.part token.symbol = .terminal token.symbol :=
      hb.part_symbol_of_mem hp hpart
    by_contra hne
    rw [Bool.not_eq_false] at hne
    rw [Grammar.part_eq_nonterminal hne] at heq
    cases heq
  -- the production of `^` has no terminal
  have hne0 : i.production ≠ 0 := by
    intro h0
    rw [h0, hb.proper.start, Option.some.injEq] at hp
    subst hp
    cases List.mem_singleton.mp hpart
  obtain ⟨r, hr, rfl⟩ := Grammar.exists_rule_of_productions_get? hp hne0
  obtain ⟨s, hs, hsymbol⟩ := List.mem_map.mp hpart
  have hclause : token.symbol ∈ r.clause := by
    have heq : s = token.symbol := by rw [← p.grammar.part_symbol s, hsymbol]; rfl
    exact heq ▸ Rule.mem_clause hs
  exact ⟨SymbolTable.isTerminal_of_contains (hb.valid.clause_known r hr _ hclause) hterminal, r, hr,
    hclause⟩

include heoi in
lemma shift_symbol {dest : StateId} (hexec : p.executed c = some (token, .shift dest)) :
    p.grammar.symbols.isTerminal token.symbol = true ∧ token.symbol ≠ SymbolId.eoi := by
  obtain ⟨hterminal, r, hr, hclause⟩ := shift_clause hb hpath hexec
  exact ⟨hterminal, fun h0 => heoi r hr (h0 ▸ hclause)⟩

include hactions

/-- A step that goes on shifts a terminal, or puts the trees of a clause, which are on top, under
one node. -/
lemma step_running (hexec : p.executed c = some (token, action))
    (hstep : p.step c = .running c') :
    (∃ dest c₁, action = .shift dest ∧ p.grammar.symbols.isTerminal token.symbol = true ∧
      c.fetch = .ok (token, c₁) ∧
      c' = { c₁ with frames := ⟨.leaf token, dest⟩ :: c.frames, fallen := [] }) ∨
    ∃ id r dest c₁ fallen, action = .reduce id ∧ p.grammar.rule? id = some r ∧
      labels.take r.arity = r.symbols.reverse ∧ c.fetch = .ok (token, c₁) ∧
      c' = { c₁ with
        frames := ⟨.node id r.target ((c.frames.take r.arity).reverse.map Frame.tree), dest⟩ ::
          c.frames.drop r.arity
        fallen, held := some token } := by
  cases action with
  | shift dest =>
    obtain ⟨c₁, hfetch, hshift⟩ := step_shift hexec
    cases hstep.symm.trans hshift
    exact .inl ⟨dest, c₁, rfl, (shift_clause hb hpath hexec).1, hfetch, rfl⟩
  | reduce id =>
    obtain ⟨r, hr, hlength, hlabels, dest, hgoto⟩ :=
      (agrees_of_path hb hpath).reduces token id hexec
    obtain ⟨c₁, hfetch, ⟨e, hreduce, -⟩ | ⟨frames, fallen, hreduce, hrun⟩⟩ := step_reduce hexec
    · cases hreduce.symm.trans (reduceFrames_eq hr hgoto)
    cases hstep.symm.trans hrun
    cases (reduceFrames_eq hr hgoto).symm.trans hreduce
    rw [toTree_apply (hactions r (List.mem_of_getElem? hr)), hb.valid.rule_id hr]
    exact .inr ⟨id, r, dest, c₁, fallen, rfl, hr, hlabels, hfetch, rfl⟩
  | accept =>
    rcases step_accept hexec with ⟨frame, frames, -, haccept⟩ | ⟨-, state, hfail⟩
    · cases hstep.symm.trans haccept
    · cases hstep.symm.trans hfail
  | fail =>
    obtain ⟨state, hfail⟩ := step_fail hexec
    cases hstep.symm.trans hfail

lemma Derived.step (hd : Derived p.grammar c.frames labels)
    (hexec : p.executed c = some (token, action)) (hstep : p.step c = .running c') :
    Derived p.grammar c'.frames (p.relabel labels token action) := by
  obtain ⟨dest, c₁, rfl, hterminal, -, rfl⟩ | ⟨id, r, dest, c₁, fallen, rfl, hr, hlabels, -, rfl⟩ :=
    step_running hb hpath hactions hexec hstep
  · exact hd.shift hterminal dest
  · rw [relabel, hr]
    exact hd.reduce hr hlabels dest

omit hactions in
/-- The tree accepted is a derivation tree for the accepted symbol. -/
lemma Derived.accepted (hd : Derived p.grammar c.frames labels) {tree : Tree}
    (hstep : p.step c = .accepted tree) :
    ∃ frame, c.frames = [frame] ∧ frame.tree = tree ∧ tree.symbol = target ∧
      p.grammar.IsDerivation tree := by
  obtain ⟨token, hexec⟩ := executed_of_accepted hstep
  rcases step_accept hexec with ⟨frame, frames, hframes, haccept⟩ | ⟨-, state, hfail⟩
  · cases hstep.symm.trans haccept
    obtain ⟨hlength, hlabels⟩ := (agrees_of_path hb hpath).accepts token hexec
    have hnil : frames = [] := by simpa [hframes] using hlength
    subst hnil
    have hsymbol := hd.symbols
    rw [hframes, hlabels] at hsymbol
    exact ⟨frame, hframes, rfl, by simpa using hsymbol, hd.derivations frame (by simp [hframes])⟩
  · cases hstep.symm.trans hfail

end Step

/-- Whatever a run without callbacks returns is a derivation tree for the accepted symbol. -/
lemma run_derived (hb : p.grammar.Builds target p.table)
    (hactions : ∀ r ∈ p.grammar.rules, r.action = none) {fuel : Nat} {tree : Tree}
    (hpath : (p.grammar.automatonOf target).Path p.grammar labels c.frames)
    (hd : Derived p.grammar c.frames labels) (h : p.run fuel c = .ok tree) :
    tree.symbol = target ∧ p.grammar.IsDerivation tree := by
  induction fuel generalizing c labels with
  | zero => cases h
  | succ fuel ih =>
    rw [run] at h
    split at h
    · next c' hstep =>
      obtain ⟨token, action, hexec⟩ := executed_of_step hstep
      exact ih (path_step hb hpath hexec hstep) (hd.step hb hpath hactions hexec hstep) h
    · next tree' hstep =>
      cases h
      obtain ⟨-, -, -, hsymbol, htree⟩ := hd.accepted hb hpath hstep
      exact ⟨hsymbol, htree⟩
    · cases h

/-! ## Tokens that are consumed -/

section Step

variable (hb : p.grammar.Builds target p.table)
  (hpath : (p.grammar.automatonOf target).Path p.grammar labels c.frames)
  (hactions : ∀ r ∈ p.grammar.rules, r.action = none)
  (heoi : ∀ r ∈ p.grammar.rules, SymbolId.eoi ∉ r.clause)

/-- A shift puts a leaf on the stack and the token among those consumed. -/
lemma Traces.shift (ht : Traces p.grammar input c labels)
    (hterminal : p.grammar.symbols.isTerminal token.symbol = true)
    (hne : token.symbol ≠ SymbolId.eoi) {c₁ : Configuration} (hfetch : c.fetch = .ok (token, c₁))
    (dest : StateId) :
    Traces p.grammar input { c₁ with frames := ⟨.leaf token, dest⟩ :: c.frames, fallen := [] }
      (token.symbol :: labels) := by
  obtain ⟨hlooking, hheld⟩ := ht.consumed.fetch hfetch
  have hleaves : leavesOf (⟨.leaf token, dest⟩ :: c.frames) = leavesOf c.frames ++ [token] := by
    rw [leavesOf_cons, Tree.yield]
  refine ⟨ht.toDerived.shift hterminal dest, ?consumed, ?not_eoi⟩
  case consumed =>
    simp only [Consumed, hheld, hleaves]
    rcases hlooking with hinput | ⟨-, -, h0⟩
    · rw [hinput, List.map_append, List.append_assoc]
      rfl
    · exact absurd h0 hne
  case not_eoi =>
    rw [hleaves]
    intro token' htoken'
    rcases List.mem_append.mp htoken' with htoken' | htoken'
    · exact ht.not_eoi token' htoken'
    · rw [List.mem_singleton.mp htoken']
      exact hne

/-- A reduction leaves all leaves where they are. -/
lemma Traces.reduce (ht : Traces p.grammar input c labels) {id : RuleId} {r : Rule}
    (hr : p.grammar.rule? id = some r) (hlabels : labels.take r.arity = r.symbols.reverse)
    {c₁ : Configuration} (hfetch : c.fetch = .ok (token, c₁)) (dest : StateId)
    (fallen : List StateId) :
    Traces p.grammar input
      { c₁ with
        frames := ⟨.node id r.target ((c.frames.take r.arity).reverse.map Frame.tree), dest⟩ ::
          c.frames.drop r.arity
        fallen, held := some token }
      (r.target :: labels.drop r.arity) := by
  obtain ⟨hlooking, -⟩ := ht.consumed.fetch hfetch
  have hleaves : leavesOf (⟨.node id r.target ((c.frames.take r.arity).reverse.map Frame.tree),
      dest⟩ :: c.frames.drop r.arity) = leavesOf c.frames := by
    rw [leavesOf_cons, leavesOf_eq_drop c.frames r.arity, Tree.yield]
  refine ⟨ht.toDerived.reduce hr hlabels dest, ?consumed, ?not_eoi⟩
  case consumed =>
    simp only [Consumed, hleaves]
    exact hlooking
  case not_eoi =>
    rw [hleaves]
    exact ht.not_eoi

include hb hpath hactions heoi

/-- A step keeps the trees on the stack what they are to be. -/
lemma Traces.step (ht : Traces p.grammar input c labels)
    (hexec : p.executed c = some (token, action)) (hstep : p.step c = .running c') :
    Traces p.grammar input c' (p.relabel labels token action) := by
  obtain ⟨dest, c₁, rfl, hterminal, hfetch, rfl⟩ |
    ⟨id, r, dest, c₁, fallen, rfl, hr, hlabels, hfetch, rfl⟩ :=
    step_running hb hpath hactions hexec hstep
  · exact ht.shift hterminal (shift_symbol hb hpath heoi hexec).2 hfetch dest
  · rw [relabel, hr]
    exact ht.reduce hr hlabels hfetch dest fallen

end Step

/-- The tree accepted is a derivation tree for the accepted symbol, with the tokens before the end
of input as its leaves. -/
lemma Traces.accepted (hb : p.grammar.Builds target p.table)
    (hpath : (p.grammar.automatonOf target).Path p.grammar labels c.frames)
    (ht : Traces p.grammar input c labels) {tree : Tree} (hstep : p.step c = .accepted tree) :
    tree.symbol = target ∧ p.grammar.IsDerivation tree ∧
      (∀ token ∈ tree.yield, token.symbol ≠ SymbolId.eoi) ∧
      ∃ token rest, Looking input tree.yield token rest ∧ token.symbol = SymbolId.eoi := by
  obtain ⟨frame, hframes, rfl, hsymbol, htree⟩ := ht.toDerived.accepted hb hpath hstep
  have hleaves : leavesOf c.frames = frame.tree.yield := by
    rw [hframes, leavesOf_cons]
    rfl
  obtain ⟨token, hexec⟩ := executed_of_accepted hstep
  obtain ⟨s, ha, hs⟩ := action_of_executed hexec
  obtain ⟨st, hst⟩ := hb.exists_topState hpath
  have hcalls := (hb.calls_of_action hst ha).resolve_left (by simp)
  have heoi := (hb.of_calls_accept (List.mem_of_getElem? hst) hcalls).1
  obtain ⟨c₁, hfetch, -⟩ := choose_of_executed hexec
  refine ⟨hsymbol, htree, ?_, token, c₁.input, ?_, (hs.resolve_right (by simp)).symm.trans heoi⟩
  · rw [← hleaves]
    exact ht.not_eoi
  · rw [← hleaves]
    exact (ht.consumed.fetch hfetch).1

lemma traces_start (g : Grammar) (input : List Lexeme) : Traces g input (.start input) [] :=
  ⟨⟨rfl, by simp [Configuration.start]⟩, rfl,
    by simp [Configuration.start, leavesOf, Tree.yieldAll]⟩

/-- Whatever a run returns is a derivation tree of the tokens before the end of input. -/
lemma run_sound (hb : p.grammar.Builds target p.table)
    (hactions : ∀ r ∈ p.grammar.rules, r.action = none)
    (heoi : ∀ r ∈ p.grammar.rules, SymbolId.eoi ∉ r.clause) {fuel : Nat} {tree : Tree}
    (hpath : (p.grammar.automatonOf target).Path p.grammar labels c.frames)
    (ht : Traces p.grammar input c labels) (h : p.run fuel c = .ok tree) :
    tree.symbol = target ∧ p.grammar.IsDerivation tree ∧
      (∀ token ∈ tree.yield, token.symbol ≠ SymbolId.eoi) ∧
      ∃ token rest, Looking input tree.yield token rest ∧ token.symbol = SymbolId.eoi := by
  induction fuel generalizing c labels with
  | zero => cases h
  | succ fuel ih =>
    rw [run] at h
    split at h
    · next c' hstep =>
      obtain ⟨token, action, hexec⟩ := executed_of_step hstep
      exact ih (path_step hb hpath hexec hstep) (ht.step hb hpath hactions heoi hexec hstep) h
    · next tree' hstep =>
      cases h
      exact ht.accepted hb hpath hstep
    · cases h

end Parser

namespace Grammar

variable {g : Grammar} {p : Parser}

/-- A parser of a grammar has the table of its own grammar, which is that grammar with the levels
of its rules inherited. -/
lemma parser_eq_ok (hp : g.parser = .ok p) :
    p.grammar = g.inheritLevels ∧ g.inheritLevels.table = .ok p.table := by
  rw [parser] at hp
  cases ht : g.inheritLevels.table with
  | error e => simp [ht, Except.map] at hp
  | ok table =>
    simp only [ht, Except.map, Except.ok.injEq] at hp
    subst hp
    exact ⟨rfl, rfl⟩

lemma builds_of_parser_eq_ok (hg : g.Valid) (hk : g.KeysFit) (hp : g.parser = .ok p) :
    p.grammar = g.inheritLevels ∧ ∃ target, g.target = some target ∧
      p.grammar.Builds target p.table := by
  obtain ⟨hgrammar, ht⟩ := parser_eq_ok hp
  obtain ⟨target, hb⟩ := exists_builds hg.inheritLevels hk.inheritLevels ht
  exact ⟨hgrammar, target, hb.accepts, hgrammar ▸ hb⟩

/-- There is a parser if there is a table. -/
lemma parser_exists_of_table {t : ActionTable} (ht : g.table = .ok t) : ∃ p, g.parser = .ok p := by
  rw [table] at ht
  rw [parser, table, automaton_inheritLevels]
  cases ha : g.automaton with
  | error e => simp [ha, Except.map] at ht
  | ok a => exact ⟨_, rfl⟩

/-- Whatever the parser of a grammar without callbacks returns, however clashes were resolved, is a
derivation tree for the accepted symbol, and its leaves are the tokens of the stream up to the end
of input or to the first token that stands for it. -/
theorem Valid.parser_sound (hg : g.Valid) (hk : g.KeysFit)
    (hactions : ∀ r ∈ g.rules, r.action = none) (heoi : ∀ r ∈ g.rules, SymbolId.eoi ∉ r.clause)
    (hp : g.parser = .ok p) {input : List Lexeme} {fuel : Nat} {tree : Tree}
    (h : p.run fuel (.start input) = .ok tree) :
    g.target = some tree.symbol ∧ g.IsDerivation tree ∧
      g.Derives [tree.symbol] (tree.leaves.map Token.symbol) ∧
      (∀ token ∈ tree.leaves, token.symbol ≠ SymbolId.eoi) ∧
      ∃ rest, input = tree.leaves.map .ok ++ rest ∧
        (rest = [] ∨ ∃ token rest', rest = .ok token :: rest' ∧ token.symbol = SymbolId.eoi) := by
  obtain ⟨hgrammar, target, htarget, hb⟩ := builds_of_parser_eq_ok hg hk hp
  obtain ⟨hsymbol, htree, hne, token, rest, hlooking, heoi⟩ :=
    Parser.run_sound hb
      (by rw [hgrammar]; exact List.forall_mem_map.mpr hactions)
      (by rw [hgrammar]; exact List.forall_mem_map.mpr heoi) (Parser.path_start p target input)
      (Parser.traces_start _ input) h
  rw [hgrammar, isDerivation_inheritLevels] at htree
  rw [Tree.leaves_eq_yield]
  refine ⟨hsymbol ▸ htarget, htree, htree.derives, hne, ?_⟩
  rcases hlooking with hinput | ⟨hinput, -, -⟩
  · exact ⟨_, hinput, .inr ⟨token, rest, rfl, heoi⟩⟩
  · exact ⟨[], by rw [List.append_nil]; exact hinput, .inl rfl⟩

theorem parser_sound_nested : ∃ p tree, nested.parser = .ok p ∧
    p.run 8 (.start [.ok ⟨3, "(", 1, 1⟩, .ok ⟨5, "x", 1, 2⟩, .ok ⟨4, ")", 1, 3⟩]) = .ok tree ∧
      nested.target = some tree.symbol ∧ nested.IsDerivation tree ∧
      nested.Derives [tree.symbol] (tree.leaves.map Token.symbol) ∧
      (∀ token ∈ tree.leaves, token.symbol ≠ SymbolId.eoi) := by
  have hrun : Parser.run .nested 8
      (.start [.ok ⟨3, "(", 1, 1⟩, .ok ⟨5, "x", 1, 2⟩, .ok ⟨4, ")", 1, 3⟩]) =
      .ok (.node 0 2 [.leaf ⟨3, "(", 1, 1⟩, .node 1 2 [.leaf ⟨5, "x", 1, 2⟩],
        .leaf ⟨4, ")", 1, 3⟩]) := by
    rfl
  obtain ⟨htarget, htree, hderives, hne, -⟩ := valid_nested.parser_sound keysFit_nested
    (by simp [nested, Rule.plain]) (by simp [nested, Rule.plain]) Parser.parser_nested hrun
  exact ⟨_, _, Parser.parser_nested, hrun, htarget, htree, hderives, hne⟩

/-- Where keys wrap around a parser may return a tree that does not have all the tokens. -/
theorem lost_token_overfull : overfull.Valid ∧ (∀ r ∈ overfull.rules, r.action = none) ∧
    (∀ r ∈ overfull.rules, SymbolId.eoi ∉ r.clause) ∧ ∃ p tree, overfull.parser = .ok p ∧
      p.parse [.ok ⟨5, "(", 1, 1⟩, .ok ⟨6, "x", 1, 1⟩] = .ok tree ∧
      tree.leaves = [⟨6, "x", 1, 1⟩] := by
  have hparse : ∀ n m, Parser.parse ⟨crowded n m, crowdedTable n m⟩
      [.ok ⟨5, "(", 1, 1⟩, .ok ⟨6, "x", 1, 1⟩] = .ok (.node 0 2 [.leaf ⟨6, "x", 1, 1⟩]) := by
    intro n m
    obtain ⟨fuel, hfuel⟩ := Nat.exists_eq_add_of_le' (Parser.four_le_stepLimit (crowded n m) 2)
    rw [Parser.parse]
    simp only [List.length_cons, List.length_nil]
    rw [hfuel]
    rfl
  refine ⟨valid_crowded (by decide), ?_, ?_, _, _, parser_crowded wraps_overfull, hparse _ _, ?_⟩
  · exact forall_mem_crowded rfl rfl rfl (fun _ => rfl) rfl
  · exact fun r hr heoi => absurd (two_lt_of_mem_clause r hr _ heoi) (by decide)
  · rw [Tree.leaves_eq_yield]
    rfl

end Grammar

end ShiftReduce
