import ShiftReduce.Proofs.Automaton.Construction
import ShiftReduce.Proofs.Parse.Path
import ShiftReduce.Proofs.Table.Overflow
/-!
# Runs of a parser with its own table

A run is followed together with the labels of its stack: the symbols of the tokens shifted and the
targets of the rules reduced by, whatever the callbacks of rules make of the trees. With the table
of its own grammar the stack stays a path of the automaton over these labels. So the table and the
grammar never disagree: a reduction finds the symbols of its rule on the stack and a state to go to,
and the parser accepts when the stack is one tree of the accepted symbol.

Main statement: `Parser.agrees_of_own_table`.
-/

namespace ShiftReduce

namespace Parser

/-- The token a step looks at and the action it executes, if it comes to that. -/
def executed (p : Parser) (c : Configuration) : Option (Token × Action) :=
  match c.fetch with
  | .error _ => none
  | .ok (token, c) =>
    match p.choose c.state token.symbol c.fallen with
    | .direct action => some (token, action)
    | .fallback rule => some (token, .reduce rule)
    | .stuck => none

/-- The labels of the stack after an action. -/
def relabel (p : Parser) (labels : List SymbolId) (token : Token) : Action → List SymbolId
  | .shift _ => token.symbol :: labels
  | .reduce id =>
    match p.grammar.rule? id with
    | some rule => rule.target :: labels.drop rule.arity
    | none => labels
  | .accept => labels
  | .fail => labels

/-- The configuration after a number of steps, with the labels of its stack, if the parse goes on
for so long. -/
def after (p : Parser) (input : List Lexeme) : Nat → Option (Configuration × List SymbolId)
  | 0 => some (.start input, [])
  | n + 1 =>
    match p.after input n with
    | none => none
    | some (c, labels) =>
      match p.step c, p.executed c with
      | .running c', some (token, action) => some (c', p.relabel labels token action)
      | _, _ => none

/-- The table agrees with the grammar in a configuration: the stack is a path over its labels, a
reduction finds the symbols of its rule on top and a state to enter, and accepting finds one tree
with the label of the accepted symbol. -/
structure Agrees (p : Parser) (target : SymbolId) (c : Configuration) (labels : List SymbolId) :
    Prop where
  path : (p.grammar.automatonOf target).Path p.grammar labels c.frames
  reduces : ∀ token id, p.executed c = some (token, .reduce id) →
    ∃ r, p.grammar.rule? id = some r ∧ r.arity ≤ c.frames.length ∧
      labels.take r.arity = r.symbols.reverse ∧
      ∃ dest, p.table.goto? (Configuration.topState (c.frames.drop r.arity)) r.target = some dest
  accepts : ∀ token, p.executed c = some (token, .accept) →
    c.frames.length = 1 ∧ labels = [target]

variable {p : Parser} {c c' : Configuration} {token : Token} {action : Action} {target : SymbolId}
  {labels : List SymbolId} {input : List Lexeme}

/-! ## One step -/

lemma frames_of_fetch (h : c.fetch = .ok (token, c')) : c'.frames = c.frames := by
  rw [Configuration.fetch] at h
  split at h
  · cases h; rfl
  · split at h
    · cases h; rfl
    · cases h
    · cases h; rfl

lemma state_of_fetch (h : c.fetch = .ok (token, c')) : c'.state = c.state := by
  rw [Configuration.state, frames_of_fetch h, Configuration.state]

/-- The executed action is that of the token's cell, or a reduction in the `ε` column. -/
lemma action_of_executed (h : p.executed c = some (token, action)) :
    ∃ s, p.table.action? c.state s = some action ∧
      (s = token.symbol ∨ ∃ id, action = .reduce id) := by
  rw [executed] at h
  split at h
  · cases h
  · next token' c₁ hfetch =>
    rw [state_of_fetch hfetch] at h
    -- the `ε` column is consulted for a reduction only
    generalize hchoose : p.choose c.state token'.symbol c₁.fallen = choice at h
    rw [choose] at hchoose
    split at hchoose
    · next a ha =>
      subst hchoose
      cases h
      exact ⟨token.symbol, ha, .inl rfl⟩
    · split at hchoose
      · next rule ha =>
        split at hchoose
        · subst hchoose
          cases h
        · subst hchoose
          cases h
          exact ⟨SymbolId.epsilon, ha, .inr ⟨rule, rfl⟩⟩
      · subst hchoose
        cases h

/-- The token was fetched, and the choice was for the executed action. -/
lemma choose_of_executed (h : p.executed c = some (token, action)) :
    ∃ c₁, c.fetch = .ok (token, c₁) ∧ c₁.frames = c.frames ∧
      (p.choose c₁.state token.symbol c₁.fallen = .direct action ∨
        ∃ id, p.choose c₁.state token.symbol c₁.fallen = .fallback id ∧ action = .reduce id) := by
  rw [executed] at h
  split at h
  · cases h
  · next token' c₁ hfetch =>
    split at h
    · next hchoose =>
      cases h
      exact ⟨c₁, hfetch, frames_of_fetch hfetch, .inl hchoose⟩
    · next rule hchoose =>
      cases h
      exact ⟨c₁, hfetch, frames_of_fetch hfetch, .inr ⟨rule, hchoose, rfl⟩⟩
    · cases h

/-- A step that executes nothing fails at the input. -/
lemma step_of_not_executed (h : p.executed c = none) :
    (∃ e, p.step c = .failed (.lexical e)) ∨
      ∃ state token, p.step c = .failed (p.rejection state token) := by
  cases hfetch : c.fetch with
  | error e =>
    left
    exact ⟨e, by simp only [step, hfetch]⟩
  | ok fetched =>
    obtain ⟨token', c₁⟩ := fetched
    right
    simp only [executed, hfetch] at h
    split at h
    · cases h
    · cases h
    · next hchoose => exact ⟨c₁.state, token', by simp only [step, hfetch, hchoose]⟩

lemma step_shift {dest : StateId} (h : p.executed c = some (token, .shift dest)) :
    ∃ c₁, c.fetch = .ok (token, c₁) ∧
      p.step c = .running { c₁ with frames := ⟨.leaf token, dest⟩ :: c.frames, fallen := [] } := by
  obtain ⟨c₁, hfetch, hframes, hchoose⟩ := choose_of_executed h
  refine ⟨c₁, hfetch, ?_⟩
  rcases hchoose with hchoose | ⟨id, -, hid⟩
  · rw [step]
    simp only [hfetch, hchoose, hframes]
  · cases hid

lemma step_reduce {id : RuleId} (h : p.executed c = some (token, .reduce id)) :
    ∃ c₁, c.fetch = .ok (token, c₁) ∧
      ((∃ e, p.reduceFrames c.frames id = .error e ∧ p.step c = .failed e) ∨
        ∃ frames fallen, p.reduceFrames c.frames id = .ok frames ∧
          p.step c = .running { c₁ with frames, fallen, held := some token }) := by
  obtain ⟨c₁, hfetch, hframes, hchoose⟩ := choose_of_executed h
  refine ⟨c₁, hfetch, ?_⟩
  rcases hchoose with hchoose | ⟨id', hchoose, hid⟩
  · rw [step]
    simp only [hfetch, hchoose, reduce, hframes]
    cases p.reduceFrames c.frames id with
    | error e => exact .inl ⟨e, rfl, rfl⟩
    | ok frames => exact .inr ⟨frames, _, rfl, rfl⟩
  · cases hid
    rw [step]
    simp only [hfetch, hchoose, reduce, hframes]
    cases p.reduceFrames c.frames id with
    | error e => exact .inl ⟨e, rfl, rfl⟩
    | ok frames => exact .inr ⟨frames, _, rfl, rfl⟩

lemma step_accept (h : p.executed c = some (token, .accept)) :
    (∃ frame frames, c.frames = frame :: frames ∧ p.step c = .accepted frame.tree) ∨
      c.frames = [] ∧ ∃ state, p.step c = .failed (p.rejection state token) := by
  obtain ⟨c₁, hfetch, hframes, hchoose⟩ := choose_of_executed h
  rcases hchoose with hchoose | ⟨id, -, hid⟩
  · rw [step]
    simp only [hfetch, hchoose]
    cases hc : c.frames with
    | nil =>
      rw [hframes.trans hc]
      exact .inr ⟨rfl, _, rfl⟩
    | cons frame frames =>
      rw [hframes.trans hc]
      exact .inl ⟨frame, frames, rfl, rfl⟩
  · cases hid

lemma step_fail (h : p.executed c = some (token, .fail)) :
    ∃ state, p.step c = .failed (p.rejection state token) := by
  obtain ⟨c₁, hfetch, hframes, hchoose⟩ := choose_of_executed h
  rcases hchoose with hchoose | ⟨id, -, hid⟩
  · rw [step]
    simp only [hfetch, hchoose]
    exact ⟨_, rfl⟩
  · cases hid

/-! ## The table of the parser's own grammar -/

section Own

variable {g : Grammar} {t : ActionTable}

lemma reduceFrames_eq {frames : List Frame} {id : RuleId} {r : Rule} {dest : StateId}
    (hr : p.grammar.rule? id = some r)
    (hgoto : p.table.goto? (Configuration.topState (frames.drop r.arity)) r.target = some dest) :
    p.reduceFrames frames id = .ok
      (⟨(r.apply ((frames.take r.arity).reverse.map Frame.tree)).toTree, dest⟩ ::
        frames.drop r.arity) := by
  simp only [reduceFrames, hr, hgoto]

/-- On a path the table agrees with the grammar. -/
lemma agrees_of_path (hb : p.grammar.Builds target p.table)
    (hpath : (p.grammar.automatonOf target).Path p.grammar labels c.frames) :
    p.Agrees target c labels := by
  obtain ⟨st, hst⟩ := hb.exists_topState hpath
  have hmem := List.mem_of_getElem? hst
  refine ⟨hpath, fun token id hexec => ?_, fun token hexec => ?_⟩
  · obtain ⟨s, ha, -⟩ := action_of_executed hexec
    have hcalls := (hb.calls_of_action hst ha).resolve_left (by simp)
    obtain ⟨i, hi, r, hr, hp, hne, hdot⟩ := hb.of_calls_reduce hmem hcalls
    obtain ⟨hlabels, hlength, -, -, dest, hgoto, -⟩ := hb.viable_rule hpath hst hi hp hne hdot
    exact ⟨r, hr, hlength, hlabels, dest, hgoto⟩
  · obtain ⟨s, ha, -⟩ := action_of_executed hexec
    have hcalls := (hb.calls_of_action hst ha).resolve_left (by simp)
    have hlabels := hb.viable_target hpath hst (hb.of_calls_accept hmem hcalls).2
    exact ⟨by rw [← hpath.length_eq, hlabels, List.length_singleton], hlabels⟩

/-- A step along a path leads to a path over the labels after the step. -/
lemma path_step (hb : p.grammar.Builds target p.table)
    (hpath : (p.grammar.automatonOf target).Path p.grammar labels c.frames)
    (hexec : p.executed c = some (token, action)) (hstep : p.step c = .running c') :
    (p.grammar.automatonOf target).Path p.grammar (p.relabel labels token action) c'.frames := by
  obtain ⟨st, hst⟩ := hb.exists_topState hpath
  have hmem := List.mem_of_getElem? hst
  obtain ⟨s, ha, hs⟩ := action_of_executed hexec
  have hcalls := hb.calls_of_action hst ha
  cases action with
  | shift dest =>
    have hcalls := hcalls.resolve_left (by simp)
    have hs : s = token.symbol := hs.resolve_right (by simp)
    obtain ⟨c₁, -, hshift⟩ := step_shift hexec
    rw [hstep, Outcome.running.injEq] at hshift
    have htarget := (hb.calls_shift_iff hmem).mp hcalls
    -- the transition over the token's symbol leads where the cell says
    rw [hshift, relabel, ← hs]
    refine ⟨⟨st, hst, ?_⟩, hpath⟩
    have hpart : p.grammar.part s = .terminal s := hb.part_symbol_of_target hmem htarget
    rw [hpart]
    exact htarget
  | reduce id =>
    have hcalls := hcalls.resolve_left (by simp)
    obtain ⟨i, hi, r, hr, hp, hne, hdot⟩ := hb.of_calls_reduce hmem hcalls
    obtain ⟨hlabels, hlength, st₀, hst₀, dest, hgoto, htarget⟩ :=
      hb.viable_rule hpath hst hi hp hne hdot
    obtain ⟨c₁, -, ⟨e, hreduce, -⟩ | ⟨frames, fallen, hreduce, hrun⟩⟩ := step_reduce hexec
    · rw [reduceFrames_eq hr hgoto] at hreduce
      cases hreduce
    · -- the path is cut back to where the rule began, and goes on over its target
      rw [hstep, Outcome.running.injEq] at hrun
      rw [reduceFrames_eq hr hgoto, Except.ok.injEq] at hreduce
      have hpart : p.grammar.part r.target = .nonterminal r.target :=
        Grammar.part_eq_nonterminal
          (hb.valid.target_nonterminal r (List.mem_of_getElem? hr))
      rw [hrun, relabel, hr, ← hreduce]
      exact ⟨⟨st₀, hst₀, hpart ▸ htarget⟩, hpath.drop r.arity⟩
  | accept =>
    rcases step_accept hexec with ⟨frame, frames, -, haccept⟩ | ⟨-, state, hfail⟩
    · cases hstep.symm.trans haccept
    · cases hstep.symm.trans hfail
  | fail =>
    obtain ⟨state, hfail⟩ := step_fail hexec
    cases hstep.symm.trans hfail

/-- A step along a path does not fail for want of a rule or of a goto cell. -/
lemma step_failed (hb : p.grammar.Builds target p.table)
    (hpath : (p.grammar.automatonOf target).Path p.grammar labels c.frames) {e : ParseError}
    (hstep : p.step c = .failed e) :
    (∃ x, e = .lexical x) ∨ ∃ state token, e = p.rejection state token := by
  cases hexec : p.executed c with
  | none =>
    rcases step_of_not_executed hexec with ⟨x, hx⟩ | ⟨state, token, hx⟩
    · cases hstep.symm.trans hx
      exact .inl ⟨x, rfl⟩
    · cases hstep.symm.trans hx
      exact .inr ⟨state, token, rfl⟩
  | some executed =>
    obtain ⟨token, action⟩ := executed
    cases action with
    | shift dest =>
      obtain ⟨c₁, -, hshift⟩ := step_shift hexec
      cases hstep.symm.trans hshift
    | reduce id =>
      obtain ⟨r, hr, -, -, dest, hgoto⟩ := (agrees_of_path hb hpath).reduces token id hexec
      obtain ⟨c₁, -, ⟨e, hreduce, -⟩ | ⟨frames, fallen, -, hrun⟩⟩ := step_reduce hexec
      · cases hreduce.symm.trans (reduceFrames_eq hr hgoto)
      · cases hstep.symm.trans hrun
    | accept =>
      rcases step_accept hexec with ⟨frame, frames, -, haccept⟩ | ⟨-, state, hfail⟩
      · cases hstep.symm.trans haccept
      · cases hstep.symm.trans hfail
        exact .inr ⟨state, token, rfl⟩
    | fail =>
      obtain ⟨state, hfail⟩ := step_fail hexec
      cases hstep.symm.trans hfail
      exact .inr ⟨state, token, rfl⟩

/-! ## Runs -/

/-- The empty stack is a path. -/
lemma path_start (p : Parser) (target : SymbolId) (input : List Lexeme) :
    (p.grammar.automatonOf target).Path p.grammar [] (Configuration.start input).frames := trivial

lemma path_after (hb : p.grammar.Builds target p.table) {n : Nat}
    (h : p.after input n = some (c, labels)) :
    (p.grammar.automatonOf target).Path p.grammar labels c.frames := by
  induction n generalizing c labels with
  | zero =>
    cases h
    exact path_start p target input
  | succ n ih =>
    rw [after] at h
    split at h
    · cases h
    · next c₀ labels₀ hafter =>
      split at h
      · next c' token action hstep hexec =>
        cases h
        exact path_step hb (ih hafter) hexec hstep
      · cases h

lemma executed_of_step (h : p.step c = .running c') : ∃ token action,
    p.executed c = some (token, action) := by
  cases hexec : p.executed c with
  | some executed => exact ⟨executed.1, executed.2, rfl⟩
  | none =>
    rcases step_of_not_executed hexec with ⟨x, hx⟩ | ⟨state, token, hx⟩
    · cases h.symm.trans hx
    · cases h.symm.trans hx

lemma executed_of_accepted {tree : Tree} (h : p.step c = .accepted tree) :
    ∃ token, p.executed c = some (token, .accept) := by
  cases hexec : p.executed c with
  | none =>
    rcases step_of_not_executed hexec with ⟨x, hx⟩ | ⟨state, token, hx⟩
    · cases h.symm.trans hx
    · cases h.symm.trans hx
  | some executed =>
    obtain ⟨token, action⟩ := executed
    cases action with
    | shift dest =>
      obtain ⟨c₁, -, hshift⟩ := step_shift hexec
      cases h.symm.trans hshift
    | reduce id =>
      obtain ⟨c₁, -, ⟨e, -, hfail⟩ | ⟨frames, fallen, -, hrun⟩⟩ := step_reduce hexec
      · cases h.symm.trans hfail
      · cases h.symm.trans hrun
    | accept => exact ⟨token, rfl⟩
    | fail =>
      obtain ⟨state, hfail⟩ := step_fail hexec
      cases h.symm.trans hfail

lemma run_error (hb : p.grammar.Builds target p.table) {fuel : Nat}
    (hpath : (p.grammar.automatonOf target).Path p.grammar labels c.frames) {e : ParseError}
    (h : p.run fuel c = .error e) :
    e = .stepLimit ∨ (∃ x, e = .lexical x) ∨ ∃ state token, e = p.rejection state token := by
  induction fuel generalizing c labels with
  | zero =>
    cases h
    exact .inl rfl
  | succ fuel ih =>
    rw [run] at h
    split at h
    · next c' hstep =>
      obtain ⟨token, action, hexec⟩ := executed_of_step hstep
      exact ih (path_step hb hpath hexec hstep) h
    · cases h
    · next e' hstep =>
      cases h
      exact .inr (step_failed hb hpath hstep)

end Own

/-- With the table of its own grammar a parser never finds table and grammar at odds, in whatever
configuration and for whatever tokens. It never lacks a rule or a goto cell, and it never comes to
accept without a tree to return. -/
theorem agrees_of_own_table (hg : p.grammar.Valid) (hk : p.grammar.KeysFit)
    (hp : p.grammar.table = .ok p.table) :
    ∃ target, p.grammar.target = some target ∧ ∀ input,
      (∀ n c labels, p.after input n = some (c, labels) → p.Agrees target c labels ∧
        ∀ token, p.executed c = some (token, .accept) → ∃ tree, p.step c = .accepted tree) ∧
      ∀ fuel e, p.run fuel (.start input) = .error e →
        (∀ id, e ≠ .missingRule id) ∧ ∀ state s, e ≠ .missingGoto state s := by
  obtain ⟨target, hb⟩ := Grammar.exists_builds hg hk hp
  refine ⟨target, hb.accepts, fun input => ⟨fun n c labels hafter => ?_, fun fuel e herror => ?_⟩⟩
  · have hagrees := agrees_of_path hb (path_after hb hafter)
    refine ⟨hagrees, fun token hexec => ?_⟩
    rcases step_accept hexec with ⟨frame, frames, -, haccept⟩ | ⟨hnil, -⟩
    · exact ⟨frame.tree, haccept⟩
    · have hone := (hagrees.accepts token hexec).1
      rw [hnil] at hone
      cases hone
  · rcases run_error hb (path_start p target input) herror with rfl | ⟨x, rfl⟩ | ⟨state, token, rfl⟩
    · exact ⟨by simp, by simp⟩
    · exact ⟨by simp, by simp⟩
    · exact ⟨by simp [rejection], by simp [rejection]⟩

/-- The parser of `S → ( S )` and `S → x` with its own table. -/
def nested : Parser :=
  ⟨.nested, (Grammar.nested.productions 2).basis.automaton.table .nested⟩

lemma parser_nested : Grammar.nested.parser = .ok .nested := by
  have hlevels : Grammar.nested.inheritLevels = .nested :=
    Grammar.inheritLevels_of_no_levels rfl (by simp [Grammar.nested, Rule.plain])
  rw [Grammar.parser, hlevels]
  rfl

theorem agrees_nested : nested.grammar.Valid ∧ nested.grammar.KeysFit ∧
    nested.grammar.table = .ok nested.table ∧
    ∀ input n c labels, nested.after input n = some (c, labels) → nested.Agrees 2 c labels := by
  refine ⟨Grammar.valid_nested, Grammar.keysFit_nested, rfl, fun input n c labels hafter => ?_⟩
  obtain ⟨target, htarget, hagrees⟩ :=
    agrees_of_own_table (p := nested) Grammar.valid_nested Grammar.keysFit_nested rfl
  cases htarget
  exact ((hagrees input).1 n c labels hafter).1

/-- The steps allowed are many for each token. -/
lemma le_stepLimit (g : Grammar) (tokens : Nat) : 16 * (tokens + 2) ≤ stepLimit g tokens := by
  have hpos : 0 < (g.rules.length + 2) *
      (g.rules.foldl (fun n r => max n r.arity) 0 + 2) ^ (g.rules.length + 40) :=
    Nat.mul_pos (Nat.succ_pos _) (Nat.pow_pos (Nat.succ_pos _))
  have hlimit : stepLimit g tokens = 16 * (tokens + 2) * ((g.rules.length + 2) *
      (g.rules.foldl (fun n r => max n r.arity) 0 + 2) ^ (g.rules.length + 40)) := by
    rw [← Nat.mul_assoc]
    rfl
  rw [hlimit]
  exact Nat.le_mul_of_pos_right _ hpos

lemma four_le_stepLimit (g : Grammar) (tokens : Nat) : 4 ≤ stepLimit g tokens :=
  Nat.le_trans (by omega) (le_stepLimit g tokens)

/-- The frames of a parser whose keys wrap around after `(` and `x`. -/
lemma after_crowded (n m : Nat) (a b : Token) (ha : a.symbol = 5) (hb : b.symbol = 6) :
    Parser.after ⟨.crowded n m, Grammar.crowdedTable n m⟩ [.ok a, .ok b] 3 =
      some (⟨[⟨.node 0 2 [.leaf b], 1⟩, ⟨.leaf a, 3⟩],
        some (Token.endOfInput b.finish.1 b.finish.2), [], b.finish, []⟩, [2, 5]) := by
  obtain ⟨_, _, _, _⟩ := a
  obtain ⟨_, _, _, _⟩ := b
  cases ha
  cases hb
  rfl

/-- Where keys wrap around a parser may come to accept with more than one tree on the stack. -/
theorem two_trees_overfull : ∃ p : Parser, p.grammar = .overfull ∧ p.grammar.Valid ∧
    p.grammar.table = .ok p.table ∧ ∃ input n c labels token, p.after input n = some (c, labels) ∧
      p.executed c = some (token, .accept) ∧ c.frames.length = 2 := by
  refine ⟨⟨.overfull, Grammar.crowdedTable 1048575 4092⟩, rfl, Grammar.valid_crowded (by decide),
    Grammar.crowded_table Grammar.wraps_overfull, _, 3, _, _, _,
    after_crowded 1048575 4092 ⟨5, "(", 1, 1⟩ ⟨6, "x", 1, 1⟩ rfl rfl, rfl, rfl⟩

end Parser

end ShiftReduce
