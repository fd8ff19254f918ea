import ShiftReduce.Proofs.Parse.Exact
import ShiftReduce.Proofs.Table.Bare
/-!
# Parsers in lockstep

What a parser does depends on the states of its stack and on the symbols of the tokens it looked
at, and on neither the trees nor the tokens to come. So on two streams that begin alike two parsers
with one table go the same way, even if only one of them has the callbacks of the rules.

The labels of the stack derive the tokens that were shifted, whatever the callbacks make of the
trees.

Main statements: `Parser.reads_after` and `Parser.Reads.run_ne_ok`.
-/

namespace ShiftReduce

/-- The number of tokens that an action takes off the stream. -/
def Action.takes : Action → Nat
  | .shift _ => 1
  | _ => 0

/-- The configurations have the same states on their stacks, and have left the same states through
the `ε` column. -/
structure Configuration.Alike (c c' : Configuration) : Prop where
  states : c'.frames.map Frame.state = c.frames.map Frame.state
  fallen : c'.fallen = c.fallen

/-- The outcomes are of one kind, with like configurations if the parse goes on. -/
inductive Outcome.Alike : Outcome → Outcome → Prop
  | running {c c' : Configuration} : c.Alike c' → Alike (.running c) (.running c')
  | accepted {tree tree' : Tree} : Alike (.accepted tree) (.accepted tree')
  | failed {e e' : ParseError} : Alike (.failed e) (.failed e')

lemma Configuration.topState_eq_headD (frames : List Frame) :
    topState frames = (frames.map Frame.state).headD 0 := by
  cases frames <;> rfl

lemma Configuration.Alike.state_eq {c c' : Configuration} (h : c.Alike c') :
    c'.state = c.state := by
  rw [state, state, topState_eq_headD, topState_eq_headD, h.states]

namespace Parser

/-- The parser without the names and the callbacks of the rules. -/
def bare (p : Parser) : Parser := ⟨p.grammar.mapRules Rule.bare, p.table⟩

variable {p : Parser} {c c' c₁ c₁' : Configuration} {token token' : Token} {action : Action}
  {target : SymbolId} {labels : List SymbolId} {tokens : List Token} {k n : Nat}

/-! ## One step -/

lemma reduceFrames_bare {frames frames' : List Frame}
    (h : frames'.map Frame.state = frames.map Frame.state) (id : RuleId) :
    (p.bare.reduceFrames frames' id).map (List.map Frame.state) =
      (p.reduceFrames frames id).map (List.map Frame.state) := by
  have hdrop : ∀ n, (frames'.drop n).map Frame.state = (frames.drop n).map Frame.state := by
    intro n
    rw [List.map_drop, List.map_drop, h]
  have htop : ∀ n, Configuration.topState (frames'.drop n) =
      Configuration.topState (frames.drop n) := by
    intro n
    rw [Configuration.topState_eq_headD, Configuration.topState_eq_headD, hdrop]
  rw [reduceFrames, reduceFrames, bare, Grammar.rule?_mapRules]
  cases p.grammar.rule? id with
  | none => rfl
  | some r =>
    simp only [Option.map_some, Rule.keepsShape_bare.arity, Rule.keepsShape_bare.target, htop]
    cases p.table.goto? (Configuration.topState (frames.drop r.arity)) r.target with
    | none => rfl
    | some dest => simp only [Except.map, List.map_cons, hdrop]

lemma reduce_alike (h : c.Alike c') (id : RuleId) :
    (p.reduce c token id).Alike (p.bare.reduce c' token' id) := by
  have hframes := reduceFrames_bare (p := p) h.states id
  rw [reduce, reduce]
  cases hr : p.reduceFrames c.frames id with
  | error e =>
    cases hr' : p.bare.reduceFrames c'.frames id with
    | error e' => exact .failed
    | ok frames' => simp [hr, hr', Except.map] at hframes
  | ok frames =>
    cases hr' : p.bare.reduceFrames c'.frames id with
    | error e' => simp [hr, hr', Except.map] at hframes
    | ok frames' =>
      simp only [hr, hr', Except.map, Except.ok.injEq] at hframes
      exact .running ⟨hframes, h.fallen⟩

lemma fallen_of_fetch (h : c.fetch = .ok (token, c')) : c'.fallen = c.fallen := by
  rw [Configuration.fetch] at h
  split at h
  · cases h; rfl
  · split at h
    · cases h; rfl
    · cases h
    · cases h; rfl

lemma alike_of_fetch (h : c.Alike c') (hfetch : c.fetch = .ok (token, c₁))
    (hfetch' : c'.fetch = .ok (token', c₁')) : c₁.Alike c₁' where
  states := by rw [frames_of_fetch hfetch, frames_of_fetch hfetch', h.states]
  fallen := by rw [fallen_of_fetch hfetch, fallen_of_fetch hfetch', h.fallen]

section Fetch

variable (h : c.Alike c') (hfetch : c.fetch = .ok (token, c₁))
  (hfetch' : c'.fetch = .ok (token', c₁')) (hsymbol : token'.symbol = token.symbol)

include h hfetch hfetch' hsymbol

lemma choose_alike : p.bare.choose c₁'.state token'.symbol c₁'.fallen =
    p.choose c₁.state token.symbol c₁.fallen := by
  have h₁ := alike_of_fetch h hfetch hfetch'
  rw [h₁.state_eq, h₁.fallen, hsymbol]
  rfl

/-- In like configurations and with tokens of one symbol the same action is executed. -/
lemma executed_alike (hexec : p.executed c = some (token, action)) :
    p.bare.executed c' = some (token', action) := by
  simp only [executed, hfetch', choose_alike h hfetch hfetch' hsymbol]
  simp only [executed, hfetch] at hexec
  split at hexec
  · cases hexec; rfl
  · cases hexec; rfl
  · cases hexec

/-- And it leads to like configurations. -/
lemma step_alike : (p.step c).Alike (p.bare.step c') := by
  have h₁ := alike_of_fetch h hfetch hfetch'
  simp only [step, hfetch, hfetch', choose_alike h hfetch hfetch' hsymbol]
  cases p.choose c₁.state token.symbol c₁.fallen with
  | stuck => exact .failed
  | fallback id =>
    have hfallen : Configuration.Alike { c₁ with fallen := c₁.state :: c₁.fallen }
        { c₁' with fallen := c₁'.state :: c₁'.fallen } :=
      ⟨h₁.states, congrArg₂ List.cons h₁.state_eq h₁.fallen⟩
    exact reduce_alike hfallen id
  | direct action =>
    cases action with
    | shift dest => exact .running ⟨by rw [List.map_cons, List.map_cons, h₁.states], rfl⟩
    | reduce id => exact reduce_alike h₁ id
    | fail => exact .failed
    | accept =>
      have hstates := h₁.states
      cases hframes : c₁.frames with
      | nil =>
        rw [hframes, List.map_nil, List.map_eq_nil_iff] at hstates
        rw [hstates]
        exact .failed
      | cons frame frames =>
        rw [hframes, List.map_cons] at hstates
        obtain ⟨frame', frames', hframes', -, -⟩ := List.map_eq_cons_iff.mp hstates
        rw [hframes']
        exact .accepted

end Fetch

/-- A step takes as many tokens off the stream as its action does. -/
lemma Sees.step (h : Sees c tokens) (hexec : p.executed c = some (token, action))
    (hstep : p.step c = .running c') : Sees c' (tokens.drop action.takes) := by
  obtain ⟨token₁, c₁, hfetch, hnext, hheld, hrest⟩ := h.fetch
  cases action with
  | shift dest =>
    obtain ⟨c₂, hfetch₂, hshift⟩ := step_shift hexec
    cases hfetch.symm.trans hfetch₂
    cases hstep.symm.trans hshift
    rcases hrest with ⟨rest, rfl, hinput⟩ | ⟨rfl, hinput⟩
    · simpa only [Sees, hheld, Action.takes, List.drop_succ_cons, List.drop_zero] using hinput
    · simpa only [Sees, hheld, List.drop_nil, List.map_nil] using hinput
  | reduce id =>
    obtain ⟨c₂, hfetch₂, ⟨e, -, hfail⟩ | ⟨frames, fallen, -, hrun⟩⟩ := step_reduce hexec
    · cases hstep.symm.trans hfail
    · cases hfetch.symm.trans hfetch₂
      cases hstep.symm.trans hrun
      rcases hrest with hrest | ⟨rfl, hinput⟩
      · exact .inl hrest
      · exact .inr ⟨rfl, hinput, hnext⟩
  | accept =>
    rcases step_accept hexec with ⟨frame, frames, -, haccept⟩ | ⟨-, state, hfail⟩
    · cases hstep.symm.trans haccept
    · cases hstep.symm.trans hfail
  | fail =>
    obtain ⟨state, hfail⟩ := step_fail hexec
    cases hstep.symm.trans hfail

/-- The token looked at is the one the parser has come to. -/
lemma Sees.symbol_eq (h : Sees c tokens) (hfetch : c.fetch = .ok (token, c₁)) :
    token.symbol = next tokens := by
  obtain ⟨token₁, c₂, hfetch₁, hnext, -⟩ := h.fetch
  cases hfetch.symm.trans hfetch₁
  exact hnext

/-- In like configurations with tokens of one symbol ahead a step of the one goes with a step of the
other. -/
lemma exists_step_alike {tokens' : List Token} (halike : c.Alike c') (h : Sees c tokens)
    (h' : Sees c' tokens') (hnext : next tokens' = next tokens)
    (hexec : p.executed c = some (token, action)) (hstep : p.step c = .running c₁) :
    ∃ c₁', c₁.Alike c₁' ∧ Sees c₁' (tokens'.drop action.takes) ∧ p.bare.step c' = .running c₁' := by
  obtain ⟨c₂, hfetch, -⟩ := choose_of_executed hexec
  obtain ⟨token', c₂', hfetch', hnext', -⟩ := h'.fetch
  have hsymbol : token'.symbol = token.symbol := by rw [hnext', hnext, h.symbol_eq hfetch]
  have hexec' := executed_alike halike hfetch hfetch' hsymbol hexec
  have hstep' := step_alike (p := p) halike hfetch hfetch' hsymbol
  rw [hstep] at hstep'
  generalize hout : p.bare.step c' = out at hstep'
  cases hstep' with
  | running halike' => exact ⟨_, halike', h'.step hexec' hout, rfl⟩

/-! ## Runs -/

/-- The parser has come to the token of index `k`, and the labels of its stack derive the tokens
before it. -/
structure Reads (p : Parser) (tokens : List Token) (k : Nat) (c : Configuration)
    (labels : List SymbolId) : Prop where
  le : k ≤ tokens.length
  sees : Sees c (tokens.drop k)
  derives : p.grammar.Derives labels.reverse ((tokens.take k).map Token.symbol)

lemma reads_start (p : Parser) (tokens : List Token) :
    p.Reads tokens 0 (.start (tokens.map .ok)) [] :=
  ⟨Nat.zero_le _, rfl, .refl⟩

lemma Reads.step (hb : p.grammar.Builds target p.table)
    (hpath : (p.grammar.automatonOf target).Path p.grammar labels c.frames)
    (heoi : ∀ r ∈ p.grammar.rules, SymbolId.eoi ∉ r.clause) (h : p.Reads tokens k c labels)
    (hexec : p.executed c = some (token, action)) (hstep : p.step c = .running c') :
    p.Reads tokens (k + action.takes) c' (p.relabel labels token action) := by
  have hsees : Sees c' (tokens.drop (k + action.takes)) := by
    rw [← List.drop_drop]
    exact h.sees.step hexec hstep
  cases action with
  | shift dest =>
    obtain ⟨-, hne⟩ := shift_symbol hb hpath heoi hexec
    obtain ⟨c₁, hfetch, -⟩ := step_shift hexec
    have hnext := h.sees.symbol_eq hfetch
    -- what is shifted is not the end of input
    cases hdrop : tokens.drop k with
    | nil =>
      rw [hdrop] at hnext
      exact absurd hnext hne
    | cons token₁ rest =>
      rw [hdrop] at hnext
      have hk : k < tokens.length := by
        by_contra hle
        rw [List.drop_of_length_le (Nat.le_of_not_lt hle)] at hdrop
        cases hdrop
      have hget : tokens[k]? = some token₁ := by
        rw [← List.head?_drop, hdrop, List.head?_cons]
      refine ⟨hk, hsees, ?_⟩
      rw [Action.takes, List.take_add_one, hget, Option.toList_some, List.map_append, relabel,
        List.reverse_cons, hnext]
      exact h.derives.append .refl
  | reduce id =>
    obtain ⟨r, hr, -, hlabels, -⟩ := (agrees_of_path hb hpath).reduces token id hexec
    refine ⟨h.le, hsees, ?_⟩
    have hstring : labels.reverse = (labels.drop r.arity).reverse ++ r.symbols := by
      rw [← List.reverse_reverse r.symbols, ← hlabels, ← List.reverse_append,
        List.take_append_drop]
    have hrule := Grammar.Rewrites.expand (labels.drop r.arity).reverse []
      (List.mem_of_getElem? hr)
    rw [List.append_nil, ← hstring] at hrule
    simp only [relabel, hr, List.reverse_cons]
    exact .head hrule h.derives
  | accept =>
    rcases step_accept hexec with ⟨frame, frames, -, haccept⟩ | ⟨-, state, hfail⟩
    · cases hstep.symm.trans haccept
    · cases hstep.symm.trans hfail
  | fail =>
    obtain ⟨state, hfail⟩ := step_fail hexec
    cases hstep.symm.trans hfail

/-- The streams have the same symbols up to that of index `k`, where the end of a stream counts as
the end of input. -/
def AgreeUpTo (k : Nat) (tokens tokens' : List Token) : Prop :=
  ∀ j ≤ k, next (tokens'.drop j) = next (tokens.drop j)

/-- A parser that has come to some token has gone there by what comes before it and by the token
itself. -/
lemma reads_after (hb : p.grammar.Builds target p.table)
    (heoi : ∀ r ∈ p.grammar.rules, SymbolId.eoi ∉ r.clause)
    (h : p.after (tokens.map .ok) n = some (c, labels)) :
    ∃ k, p.Reads tokens k c labels ∧ ∀ tokens', AgreeUpTo k tokens tokens' →
      ∃ c', c.Alike c' ∧ Sees c' (tokens'.drop k) ∧
        p.bare.Runs n (.start (tokens'.map .ok)) c' := by
  induction n generalizing c labels with
  | zero =>
    cases h
    exact ⟨0, reads_start p tokens, fun tokens' _ =>
      ⟨.start (tokens'.map .ok), ⟨rfl, rfl⟩, rfl, .refl _ _⟩⟩
  | succ n ih =>
    rw [after] at h
    split at h
    · cases h
    · next c₀ labels₀ hafter =>
      split at h
      · next c₁ token action hstep hexec =>
        cases h
        obtain ⟨k, hreads, hfollow⟩ := ih hafter
        refine ⟨k + action.takes, hreads.step hb (path_after hb hafter) heoi hexec hstep,
          fun tokens' hagree => ?_⟩
        obtain ⟨c', halike, hsees, hruns⟩ :=
          hfollow tokens' fun j hj => hagree j (Nat.le_add_right_of_le hj)
        -- both look at the token of index `k`
        obtain ⟨c₂', halike', hsees', hstep'⟩ := exists_step_alike halike hreads.sees hsees
          (hagree k (Nat.le_add_right k _)) hexec hstep
        rw [List.drop_drop] at hsees'
        exact ⟨c₂', halike', hsees', hruns.trans (runs_of_step hstep')⟩
      · cases h

/-- Where the parser fails at some token, it accepts no stream that begins with the same tokens up
to this one, and neither does it without callbacks. -/
lemma reads_of_failed (hb : p.grammar.Builds target p.table)
    (heoi : ∀ r ∈ p.grammar.rules, SymbolId.eoi ∉ r.clause)
    (h : p.after (tokens.map .ok) n = some (c, labels)) {e : ParseError}
    (hfail : p.step c = .failed e) :
    ∃ k, p.Reads tokens k c labels ∧ ∀ tokens', AgreeUpTo k tokens tokens' → ∀ fuel tree,
      p.bare.run fuel (.start (tokens'.map .ok)) ≠ .ok tree := by
  obtain ⟨k, hreads, hfollow⟩ := reads_after hb heoi h
  refine ⟨k, hreads, fun tokens' hagree fuel tree haccept => ?_⟩
  obtain ⟨c', halike, hsees, hruns⟩ := hfollow tokens' hagree
  obtain ⟨token, c₁, hfetch, hnext, -⟩ := hreads.sees.fetch
  obtain ⟨token', c₁', hfetch', hnext', -⟩ := hsees.fetch
  have hsymbol : token'.symbol = token.symbol := by rw [hnext, hnext', hagree k le_rfl]
  have hstep := step_alike (p := p) halike hfetch hfetch' hsymbol
  rw [hfail] at hstep
  generalize hout : p.bare.step c' = out at hstep
  cases hstep with
  | failed =>
    -- with enough fuel for all these steps the run ends in the failure
    have hmore := run_add haccept (n + 1)
    rw [Nat.add_comm, Nat.add_assoc, hruns, Nat.add_comm, run, hout] at hmore
    cases hmore

end Parser

end ShiftReduce
