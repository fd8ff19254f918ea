import ShiftReduce.Proofs.Parse.Soundness
import ShiftReduce.Proofs.Table.Bare
/-!
# Callbacks

Callbacks change trees and nothing else. The parser of a grammar without them goes through the same
states with the same tokens. The tree that a parser with callbacks has in place of one of that
parser's is this tree rebuilt from the leaves up: each inner node gets its rebuilt children and is
then handed, once, to the callback of its rule.

Main statement: `Grammar.Valid.parser_mute`.
-/

namespace ShiftReduce

/-! ## Rebuilt trees -/

mutual

/-- The tree with every inner node changed after the nodes below it. -/
def Tree.rebuild (f : Node → Node) : Tree → Tree
  | .leaf token => .leaf token
  | .node rule symbol children => (f ⟨rule, symbol, Tree.rebuildAll f children⟩).toTree

/-- The trees of a row, each with its inner nodes changed. -/
def Tree.rebuildAll (f : Node → Node) : List Tree → List Tree
  | [] => []
  | tree :: rest => tree.rebuild f :: Tree.rebuildAll f rest

end

mutual

/-- The nodes changed on the way, in the order of the changes and each as it is just before its
own. -/
def Tree.visits (f : Node → Node) : Tree → List Node
  | .leaf _ => []
  | .node rule symbol children =>
    Tree.visitsAll f children ++ [⟨rule, symbol, Tree.rebuildAll f children⟩]

/-- The nodes changed on the way through a row of trees. -/
def Tree.visitsAll (f : Node → Node) : List Tree → List Node
  | [] => []
  | tree :: rest => tree.visits f ++ Tree.visitsAll f rest

end

namespace Tree

variable (f : Node → Node)

lemma rebuildAll_eq_map (trees : List Tree) : rebuildAll f trees = trees.map (rebuild f) := by
  induction trees with
  | nil => rfl
  | cons tree trees ih => rw [rebuildAll, ih, List.map_cons]

lemma visitsAll_append (trees trees' : List Tree) :
    visitsAll f (trees ++ trees') = visitsAll f trees ++ visitsAll f trees' := by
  induction trees with
  | nil => rfl
  | cons tree trees ih => rw [List.cons_append, visitsAll, visitsAll, ih, List.append_assoc]

end Tree

/-- The frame with its tree rebuilt. -/
def Frame.rebuild (f : Node → Node) (frame : Frame) : Frame := ⟨frame.tree.rebuild f, frame.state⟩

/-- The configuration with the trees on its stack rebuilt. -/
def Configuration.rebuild (f : Node → Node) (c : Configuration) : Configuration :=
  { c with frames := c.frames.map (Frame.rebuild f) }

/-- The outcome with all its trees rebuilt. -/
def Outcome.rebuild (f : Node → Node) : Outcome → Outcome
  | .running c => .running (c.rebuild f)
  | .accepted tree => .accepted (tree.rebuild f)
  | .failed e => .failed e

/-! ## Grammars and parsers without callbacks -/

/-- The rule without its callback. -/
def Rule.mute (r : Rule) : Rule := { r with action := none }

lemma Rule.keepsShape_mute : Rule.KeepsShape Rule.mute :=
  ⟨fun _ => rfl, fun _ => rfl, fun _ => rfl⟩

/-- The parser with the callbacks of its grammar taken away. -/
def Parser.mute (p : Parser) : Parser := ⟨p.grammar.mapRules Rule.mute, p.table⟩

namespace Grammar

variable {g : Grammar} {r : Rule} {id : RuleId}

/-- Hands a node to the callback of its rule, if there is one. -/
def handle (g : Grammar) (n : Node) : Node :=
  match (g.rule? n.rule).bind Rule.action with
  | some action => action n
  | none => n

lemma handle_inheritLevels (g : Grammar) : g.inheritLevels.handle = g.handle := by
  funext n
  have hrule : (g.inheritLevels.rule? n.rule).bind Rule.action =
      (g.rule? n.rule).bind Rule.action := by
    show ((g.rules.map g.inherited)[n.rule]?).bind Rule.action = _
    rw [List.getElem?_map, Option.bind_map]
    rfl
  rw [handle, hrule, handle]

lemma table_mute (g : Grammar) : (g.mapRules Rule.mute).table = g.table := by
  have hbare : (g.mapRules Rule.mute).mapRules Rule.bare = g.mapRules Rule.bare := by
    rw [mapRules, mapRules, List.map_map]
    rfl
  rw [← table_bare g, ← hbare, table_bare]

lemma inheritLevels_mute (g : Grammar) :
    (g.mapRules Rule.mute).inheritLevels = g.inheritLevels.mapRules Rule.mute := by
  have hpassed : ∀ r : Rule, (g.mapRules Rule.mute).passedLevel r.mute = g.passedLevel r := by
    intro r
    rw [passedLevel, mapRules, ← List.map_reverse, List.findSome?_map]
    rfl
  have hinherited : (g.mapRules Rule.mute).inherited ∘ Rule.mute = Rule.mute ∘ g.inherited := by
    funext r
    rw [Function.comp_apply, inherited, hpassed]
    rfl
  show { g with rules := (g.rules.map Rule.mute).map (g.mapRules Rule.mute).inherited } =
    { g with rules := (g.rules.map g.inherited).map Rule.mute }
  rw [List.map_map, List.map_map, hinherited]

lemma parser_mapRules_mute (g : Grammar) :
    (g.mapRules Rule.mute).parser = g.parser.map Parser.mute := by
  rw [parser, parser, inheritLevels_mute, table_mute]
  cases g.inheritLevels.table <;> rfl

/-- A rule of the grammar hands its node to its own callback. -/
lemma Valid.apply_eq_handle (hg : g.Valid) (hr : g.rule? id = some r) (trees : List Tree) :
    r.apply trees = g.handle ⟨r.id, r.target, trees⟩ := by
  have haction : (g.rule? r.id).bind Rule.action = r.action := by
    rw [hg.rule_id hr, hr]
    rfl
  cases h : r.action with
  | none => simp only [Rule.apply, handle, haction, h]
  | some action => simp only [Rule.apply, handle, haction, h]

/-- What a rule makes of rebuilt trees is the rebuilt node that it makes without its callback. -/
lemma Valid.apply_rebuild (hg : g.Valid) (hr : g.rule? id = some r) (trees : List Tree) :
    (r.apply (trees.map (Tree.rebuild g.handle))).toTree =
      (r.mute.apply trees).toTree.rebuild g.handle := by
  rw [hg.apply_eq_handle hr, ← Tree.rebuildAll_eq_map]
  rfl

end Grammar

namespace Parser

variable {p : Parser} {c c' : Configuration} {token : Token} {action : Action} {f : Node → Node}

/-! ## One step -/

lemma topState_rebuild (frames : List Frame) :
    Configuration.topState (frames.map (Frame.rebuild f)) = Configuration.topState frames := by
  cases frames <;> rfl

lemma fetch_rebuild : (c.rebuild f).fetch = c.fetch.map fun x => (x.1, x.2.rebuild f) := by
  simp only [Configuration.fetch, Configuration.rebuild]
  split
  · rfl
  · split <;> rfl

lemma reduceFrames_rebuild (hp : p.grammar.Valid) (frames : List Frame) (id : RuleId) :
    p.reduceFrames (frames.map (Frame.rebuild p.grammar.handle)) id =
      (p.mute.reduceFrames frames id).map (List.map (Frame.rebuild p.grammar.handle)) := by
  rw [reduceFrames, reduceFrames]
  have hmute : p.mute.grammar.rule? id = (p.grammar.rule? id).map Rule.mute :=
    Grammar.rule?_mapRules _ _ _
  rw [hmute]
  cases hr : p.grammar.rule? id with
  | none => rfl
  | some r =>
    have htrees : ((frames.map (Frame.rebuild p.grammar.handle)).take r.arity).reverse.map
        Frame.tree =
        ((frames.take r.arity).reverse.map Frame.tree).map (Tree.rebuild p.grammar.handle) := by
      rw [← List.map_take, ← List.map_reverse, List.map_map, List.map_map]
      rfl
    have harity : r.mute.arity = r.arity := rfl
    have htarget : r.mute.target = r.target := rfl
    have htable : p.mute.table = p.table := rfl
    simp only [Option.map_some, harity, htarget, htable, htrees, ← List.map_drop, topState_rebuild,
      hp.apply_rebuild hr]
    cases p.table.goto? (Configuration.topState (frames.drop r.arity)) r.target <;> rfl

lemma reduce_rebuild (hp : p.grammar.Valid) (id : RuleId) :
    p.reduce (c.rebuild p.grammar.handle) token id =
      (p.mute.reduce c token id).rebuild p.grammar.handle := by
  rw [reduce, reduce, Configuration.rebuild, reduceFrames_rebuild hp]
  cases p.mute.reduceFrames c.frames id <;> rfl

/-- A step does to the rebuilt trees what it does without callbacks to the trees. -/
lemma step_rebuild (hp : p.grammar.Valid) (c : Configuration) :
    p.step (c.rebuild p.grammar.handle) = (p.mute.step c).rebuild p.grammar.handle := by
  rw [step, step, fetch_rebuild]
  cases c.fetch with
  | error e => rfl
  | ok fetched =>
    obtain ⟨token, c⟩ := fetched
    have hstate : (c.rebuild p.grammar.handle).state = c.state := topState_rebuild c.frames
    have hfallen : (c.rebuild p.grammar.handle).fallen = c.fallen := rfl
    have hchoose : p.choose = p.mute.choose := rfl
    simp only [Except.map, hstate, hfallen, hchoose]
    cases p.mute.choose c.state token.symbol c.fallen with
    | stuck => rfl
    | fallback rule => exact reduce_rebuild (c := { c with fallen := c.state :: c.fallen }) hp rule
    | direct action =>
      cases action with
      | shift dest => rfl
      | reduce rule => exact reduce_rebuild hp rule
      | accept =>
        simp only [Configuration.rebuild]
        cases c.frames <;> rfl
      | fail => rfl

/-! ## Runs -/

/-- A run comes to the tree that the run without callbacks comes to, rebuilt, or to its error. -/
lemma run_rebuild (hp : p.grammar.Valid) (n : Nat) (c : Configuration) :
    p.run n (c.rebuild p.grammar.handle) =
      (p.mute.run n c).map (Tree.rebuild p.grammar.handle) := by
  induction n generalizing c with
  | zero => rfl
  | succ n ih =>
    rw [run, run, step_rebuild hp]
    cases p.mute.step c with
    | running c' => exact ih c'
    | accepted tree => rfl
    | failed e => rfl

lemma stepLimit_mute (g : Grammar) (tokens : Nat) :
    stepLimit (g.mapRules Rule.mute) tokens = stepLimit g tokens := by
  have hlongest : (g.mapRules Rule.mute).rules.foldl (fun n r => max n r.arity) 0 =
      g.rules.foldl (fun n r => max n r.arity) 0 := List.foldl_map
  have hcount : (g.mapRules Rule.mute).rules.length = g.rules.length := List.length_map _
  simp only [stepLimit, hlongest, hcount]

lemma parse_rebuild (hp : p.grammar.Valid) (input : List Lexeme) :
    p.parse input = (p.mute.parse input).map (Tree.rebuild p.grammar.handle) := by
  have hlimit : stepLimit p.mute.grammar input.length = stepLimit p.grammar input.length :=
    stepLimit_mute _ _
  rw [parse, parse, hlimit]
  exact run_rebuild hp _ (.start input)

/-! ## The order of the callbacks -/

/-- The node that a step makes of the trees on the stack, as the callback of its rule gets it. -/
def handedAt (p : Parser) (c : Configuration) : List Node :=
  match p.executed c with
  | some (_, .reduce id) =>
    match p.grammar.rule? id with
    | some r => [⟨r.id, r.target, (c.frames.take r.arity).reverse.map Frame.tree⟩]
    | none => []
  | _ => []

/-- The nodes that the steps of a run make, as the callbacks get them. -/
def handed (p : Parser) : Nat → Configuration → List Node
  | 0, _ => []
  | fuel + 1, c =>
    p.handedAt c ++
      match p.step c with
      | .running c => p.handed fuel c
      | _ => []

/-- The nodes that a parse makes, as the callbacks get them. -/
def handedIn (p : Parser) (input : List Lexeme) : List Node :=
  p.handed (stepLimit p.grammar input.length) (.start input)

/-- The nodes visited when the trees of a stack are rebuilt, from the bottom. -/
def visitsOf (f : Node → Node) (frames : List Frame) : List Node :=
  Tree.visitsAll f (frames.reverse.map Frame.tree)

lemma visitsOf_cons (frame : Frame) (frames : List Frame) :
    visitsOf f (frame :: frames) = visitsOf f frames ++ frame.tree.visits f := by
  rw [visitsOf, List.reverse_cons, List.map_append, Tree.visitsAll_append, List.map_singleton,
    Tree.visitsAll, Tree.visitsAll, List.append_nil]
  rfl

lemma visitsOf_split (frames : List Frame) (n : Nat) :
    visitsOf f frames = visitsOf f (frames.drop n) ++ visitsOf f (frames.take n) := by
  rw [visitsOf, visitsOf, visitsOf, ← Tree.visitsAll_append, ← List.map_append,
    ← List.reverse_append, List.take_append_drop]

lemma executed_rebuild (p : Parser) (c : Configuration) (f : Node → Node) :
    p.executed (c.rebuild f) = p.mute.executed c := by
  rw [executed, executed, fetch_rebuild]
  cases c.fetch with
  | error e => rfl
  | ok fetched =>
    have hstate : (fetched.2.rebuild f).state = fetched.2.state := topState_rebuild fetched.2.frames
    simp only [Except.map, hstate]
    rfl

lemma exists_of_reduceFrames {frames frames' : List Frame} {id : RuleId}
    (h : p.reduceFrames frames id = .ok frames') : ∃ r dest, p.grammar.rule? id = some r ∧
      frames' = ⟨(r.apply ((frames.take r.arity).reverse.map Frame.tree)).toTree, dest⟩ ::
        frames.drop r.arity := by
  rw [reduceFrames] at h
  split at h
  · cases h
  · next r hr =>
    dsimp only at h
    split at h
    · cases h
    · next dest _ => exact ⟨r, dest, hr, (Except.ok.inj h).symm⟩

/-- A step hands over the node on top of the stack after it, and none if it makes none. -/
lemma visitsOf_step (hstep : p.mute.step c = .running c') :
    visitsOf p.grammar.handle c'.frames = visitsOf p.grammar.handle c.frames ++
      p.handedAt (c.rebuild p.grammar.handle) := by
  obtain ⟨token, action, hexec⟩ := executed_of_step hstep
  rw [handedAt, executed_rebuild, hexec]
  cases action with
  | shift dest =>
    obtain ⟨c₁, -, hshift⟩ := step_shift hexec
    cases hstep.symm.trans hshift
    exact visitsOf_cons _ _
  | reduce id =>
    obtain ⟨c₁, -, ⟨e, -, hfail⟩ | ⟨frames, fallen, hframes, hrun⟩⟩ := step_reduce hexec
    · cases hstep.symm.trans hfail
    · cases hstep.symm.trans hrun
      obtain ⟨r, dest, hr, rfl⟩ := exists_of_reduceFrames hframes
      obtain ⟨r, hmuted, rfl⟩ := Option.map_eq_some_iff.mp
        ((Grammar.rule?_mapRules p.grammar Rule.mute id).symm.trans hr)
      have htrees : ((c.rebuild p.grammar.handle).frames.take r.arity).reverse.map Frame.tree =
          Tree.rebuildAll p.grammar.handle ((c.frames.take r.arity).reverse.map Frame.tree) := by
        rw [Tree.rebuildAll_eq_map, Configuration.rebuild, ← List.map_take, ← List.map_reverse,
          List.map_map, List.map_map]
        rfl
      have harity : r.mute.arity = r.arity := rfl
      rw [visitsOf_cons, visitsOf_split c.frames r.arity, List.append_assoc, harity]
      simp only [hmuted, htrees]
      rfl
  | accept =>
    rcases step_accept hexec with ⟨frame, frames, -, haccept⟩ | ⟨-, state, hfail⟩
    · cases hstep.symm.trans haccept
    · cases hstep.symm.trans hfail
  | fail =>
    obtain ⟨state, hfail⟩ := step_fail hexec
    cases hstep.symm.trans hfail

/-- A run that returns a tree has handed over the nodes of the tree in the order of the visits,
after those of the trees that are left below it. On a path of the automaton there are none. -/
lemma handed_of_run (hp : p.grammar.Valid) {n : Nat} {tree : Tree} (h : p.mute.run n c = .ok tree) :
    ∃ below, visitsOf p.grammar.handle c.frames ++ p.handed n (c.rebuild p.grammar.handle) =
        visitsOf p.grammar.handle below ++ tree.visits p.grammar.handle ∧
      ∀ target labels, p.grammar.Builds target p.table → (p.grammar.automatonOf target).Path
        p.grammar labels (c.rebuild p.grammar.handle).frames → below = [] := by
  induction n generalizing c with
  | zero => cases h
  | succ n ih =>
    rw [handed, step_rebuild hp]
    rw [run] at h
    cases hstep : p.mute.step c with
    | running c' =>
      rw [hstep] at h
      obtain ⟨below, hvisits, hnone⟩ := ih h
      refine ⟨below, ?_, fun target labels hb hpath => ?_⟩
      · rw [← hvisits, visitsOf_step hstep, List.append_assoc]
        rfl
      · obtain ⟨token, action, hexec⟩ := executed_of_step hstep
        rw [← executed_rebuild p c p.grammar.handle] at hexec
        refine hnone target _ hb (path_step hb hpath hexec ?_)
        rw [step_rebuild hp, hstep]
        rfl
    | accepted tree' =>
      rw [hstep] at h
      obtain rfl : tree' = tree := Except.ok.inj h
      obtain ⟨token, hexec⟩ := executed_of_accepted hstep
      rcases step_accept hexec with ⟨frame, below, hframes, haccept⟩ | ⟨-, state, hfail⟩
      · cases hstep.symm.trans haccept
        refine ⟨below, ?_, fun target labels hb hpath => ?_⟩
        · rw [handedAt, executed_rebuild, hexec, hframes, visitsOf_cons]
          exact List.append_nil _
        · rw [← executed_rebuild p c p.grammar.handle] at hexec
          have hone := ((agrees_of_path hb hpath).accepts token hexec).1
          rw [Configuration.rebuild, hframes, List.length_map, List.length_cons] at hone
          exact List.length_eq_zero_iff.mp (Nat.succ.inj hone)
      · cases hstep.symm.trans hfail
    | failed e =>
      rw [hstep] at h
      cases h

end Parser

namespace Grammar

section Parsed

variable {g : Grammar} {p : Parser}

lemma parser_mute_eq (hp : g.parser = .ok p) : (g.mapRules Rule.mute).parser = .ok p.mute := by
  rw [parser_mapRules_mute, hp]
  rfl

/-- A run of the parser of a grammar is that of the parser without callbacks, with the tree rebuilt
by the callbacks of the grammar. -/
lemma Valid.run_parser (hg : g.Valid) (hp : g.parser = .ok p) (fuel : Nat) (input : List Lexeme) :
    p.run fuel (.start input) = (p.mute.run fuel (.start input)).map (Tree.rebuild g.handle) := by
  obtain ⟨hgrammar, -⟩ := parser_eq_ok hp
  have hhandle : p.grammar.handle = g.handle := by rw [hgrammar, handle_inheritLevels]
  rw [← hhandle]
  exact Parser.run_rebuild (hgrammar ▸ hg.inheritLevels) fuel (.start input)

lemma Valid.parse_parser (hg : g.Valid) (hp : g.parser = .ok p) (input : List Lexeme) :
    p.parse input = (p.mute.parse input).map (Tree.rebuild g.handle) := by
  have hlimit : Parser.stepLimit p.mute.grammar input.length =
      Parser.stepLimit p.grammar input.length := Parser.stepLimit_mute _ _
  rw [Parser.parse, Parser.parse, hlimit, hg.run_parser hp]

end Parsed

end Grammar

/-- The callbacks of a grammar have no part in how its parser goes. With them taken away there is a
parser if and only if there is one with them, or else the same error, and it has the same table and
may take as many steps. For every stream and any number of steps one parser fails if and only if the
other fails in the same way, and the tree that the parser with callbacks returns is the other's tree
rebuilt. The nodes of the tree are handed over once each, those below a node before the node, and
where item keys fit no others are. -/
theorem Grammar.Valid.parser_mute {g : Grammar} (hg : g.Valid) :
    (∀ e, g.parser = .error e ↔ (g.mapRules Rule.mute).parser = .error e) ∧
    ((∃ p, g.parser = .ok p) ↔ ∃ p₀, (g.mapRules Rule.mute).parser = .ok p₀) ∧
    ∀ p p₀, g.parser = .ok p → (g.mapRules Rule.mute).parser = .ok p₀ →
      p.table = p₀.table ∧
      (∀ tokens, Parser.stepLimit p₀.grammar tokens = Parser.stepLimit p.grammar tokens) ∧
      ∀ input fuel,
        (∀ e, p.run fuel (.start input) = .error e ↔ p₀.run fuel (.start input) = .error e) ∧
        (∀ tree, p.run fuel (.start input) = .ok tree ↔
          ∃ tree₀, p₀.run fuel (.start input) = .ok tree₀ ∧ tree = tree₀.rebuild g.handle) ∧
        ∀ tree₀, p₀.run fuel (.start input) = .ok tree₀ →
          (∃ before, p.handed fuel (.start input) = before ++ tree₀.visits g.handle) ∧
          (g.KeysFit → p.handed fuel (.start input) = tree₀.visits g.handle) := by
  have hparser := parser_mapRules_mute g
  refine ⟨fun e => ?_, ?_, fun p p₀ hp hp₀ => ?_⟩
  · rw [hparser]
    cases g.parser <;> simp [Except.map]
  · rw [hparser]
    cases g.parser <;> simp [Except.map]
  obtain rfl : p.mute = p₀ := Except.ok.inj ((parser_mute_eq hp).symm.trans hp₀)
  obtain ⟨hgrammar, -⟩ := parser_eq_ok hp
  have hvalid : p.grammar.Valid := hgrammar ▸ hg.inheritLevels
  have hhandle : p.grammar.handle = g.handle := by rw [hgrammar, handle_inheritLevels]
  refine ⟨rfl, Parser.stepLimit_mute _, fun input fuel => ?_⟩
  have hstart : (Configuration.start input).rebuild g.handle = .start input := rfl
  refine ⟨fun e => ?_, fun tree => ?_, fun tree₀ htree₀ => ?_⟩
  · rw [hg.run_parser hp]
    cases p.mute.run fuel (.start input) <;> simp [Except.map]
  · rw [hg.run_parser hp]
    cases p.mute.run fuel (.start input) <;> simp [Except.map, eq_comm]
  · obtain ⟨below, hhanded, hnone⟩ := Parser.handed_of_run hvalid htree₀
    have hempty : Parser.visitsOf g.handle (Configuration.start input).frames = [] := rfl
    rw [hhandle, hstart, hempty, List.nil_append] at hhanded
    refine ⟨⟨_, hhanded⟩, fun hk => ?_⟩
    obtain ⟨-, target, -, hb⟩ := builds_of_parser_eq_ok hg hk hp
    rw [hnone target _ hb (Parser.path_start p target input)] at hhanded
    exact hhanded

/-- Brackets around a word with callbacks that do what they can: one drops the word, the other turns
the children around, doubles the first and overwrites rule and symbol. -/
def Grammar.scrambling : Grammar := { Grammar.nested with
  rules := [
    { Rule.plain 0 2 [3, 2, 4] with
      action := some fun n => ⟨77, 0, n.children.reverse ++ n.children.take 1⟩ },
    { Rule.plain 1 2 [5] with action := some fun n => { n with children := [] } }] }

lemma Grammar.valid_scrambling : Grammar.scrambling.Valid :=
  ⟨⟨_, rfl⟩, rfl, by decide, by decide, by decide, rfl⟩

theorem Grammar.parser_mute_scrambling : scrambling.Valid ∧ scrambling.KeysFit ∧
    ∃ p p₀, scrambling.parser = .ok p ∧ (scrambling.mapRules Rule.mute).parser = .ok p₀ ∧
      p₀.parse [.ok ⟨3, "(", 1, 1⟩, .ok ⟨5, "x", 1, 2⟩, .ok ⟨4, ")", 1, 3⟩] =
        .ok (.node 0 2 [.leaf ⟨3, "(", 1, 1⟩, .node 1 2 [.leaf ⟨5, "x", 1, 2⟩],
          .leaf ⟨4, ")", 1, 3⟩]) ∧
      p.parse [.ok ⟨3, "(", 1, 1⟩, .ok ⟨5, "x", 1, 2⟩, .ok ⟨4, ")", 1, 3⟩] =
        .ok (.node 77 0 [.leaf ⟨4, ")", 1, 3⟩, .node 1 2 [], .leaf ⟨3, "(", 1, 1⟩,
          .leaf ⟨3, "(", 1, 1⟩]) ∧
      p.handedIn [.ok ⟨3, "(", 1, 1⟩, .ok ⟨5, "x", 1, 2⟩, .ok ⟨4, ")", 1, 3⟩] =
        [⟨1, 2, [.leaf ⟨5, "x", 1, 2⟩]⟩,
          ⟨0, 2, [.leaf ⟨3, "(", 1, 1⟩, .node 1 2 [], .leaf ⟨4, ")", 1, 3⟩]⟩] := by
  have hkeys : scrambling.KeysFit := by
    rintro target ⟨⟩
    decide
  have hp₀ : (scrambling.mapRules Rule.mute).parser = .ok .nested := Parser.parser_nested
  have hparse : Parser.nested.parse
      [.ok ⟨3, "(", 1, 1⟩, .ok ⟨5, "x", 1, 2⟩, .ok ⟨4, ")", 1, 3⟩] =
      .ok (.node 0 2 [.leaf ⟨3, "(", 1, 1⟩, .node 1 2 [.leaf ⟨5, "x", 1, 2⟩],
        .leaf ⟨4, ")", 1, 3⟩]) := by
    have hlimit : 8 ≤ Parser.stepLimit nested 3 :=
      Nat.le_trans (by decide : 8 ≤ 16 * (3 + 2)) (Parser.le_stepLimit _ _)
    obtain ⟨fuel, hfuel⟩ := Nat.exists_eq_add_of_le' hlimit
    rw [Parser.parse]
    simp only [List.length_cons, List.length_nil]
    rw [Parser.nested, hfuel]
    rfl
  obtain ⟨-, hexists, hsame⟩ := valid_scrambling.parser_mute
  obtain ⟨p, hp⟩ := hexists.mpr ⟨_, hp₀⟩
  obtain ⟨-, hlimit, hinput⟩ := hsame p _ hp hp₀
  obtain ⟨-, htree, hhanded⟩ := hinput
    [.ok ⟨3, "(", 1, 1⟩, .ok ⟨5, "x", 1, 2⟩, .ok ⟨4, ")", 1, 3⟩] (Parser.stepLimit p.grammar 3)
  have hrun := hparse
  rw [Parser.parse] at hrun
  simp only [List.length_cons, List.length_nil] at hrun
  rw [hlimit] at hrun
  exact ⟨valid_scrambling, hkeys, p, _, hp, hp₀, hparse, (htree _).mpr ⟨_, hrun, rfl⟩,
    (hhanded _ hrun).2 hkeys⟩

end ShiftReduce
