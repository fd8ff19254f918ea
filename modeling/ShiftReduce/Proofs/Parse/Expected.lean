import ShiftReduce.Proofs.Parse.Prefix
/-!
# What an error lists

An error lists the terminals with an action in the state where the parser fails. Without conflicts
every terminal that can come next has an action in the state in which the rejected token is seen
first. But the parser may reduce on a token that it rejects in the end, on a lookahead that belongs
to another context or by turning to the `ε` column, and in the states it comes to by that a terminal
that could have come instead may have no action any more.

Main statement: `Grammar.Valid.expected_at_first_sight`.
-/

namespace ShiftReduce

/-- A path is one of states, and of a grammar it needs the kinds of the symbols only. -/
lemma Automaton.Path.of_states {a : Automaton} {g g' : Grammar} {labels : List SymbolId}
    {frames frames' : List Frame} (h : a.Path g labels frames) (hpart : g'.part = g.part)
    (hstates : frames'.map Frame.state = frames.map Frame.state) : a.Path g' labels frames' := by
  induction labels generalizing frames frames' with
  | nil =>
    cases frames with
    | nil =>
      rw [List.map_nil, List.map_eq_nil_iff] at hstates
      exact hstates ▸ h
    | cons frame frames => exact h.elim
  | cons label labels ih =>
    cases frames with
    | nil => exact h.elim
    | cons frame frames =>
      rw [List.map_cons] at hstates
      obtain ⟨frame', frames', rfl, hstate, hrest⟩ := List.map_eq_cons_iff.mp hstates
      obtain ⟨⟨st, hst, htarget⟩, hpath⟩ := h
      refine ⟨⟨st, ?_, by rw [hpart, hstate, htarget]⟩, ih hpath hrest⟩
      rwa [Configuration.topState_eq_headD, hrest, ← Configuration.topState_eq_headD]

namespace Parser

variable {p : Parser} {c c₁ : Configuration} {token : Token} {target : SymbolId} {k n fuel : Nat}
  {labels : List SymbolId} {tokens : List Token} {tree : Tree}

/-- In a run that accepts, the token looked at has an action other than `fail`. -/
lemma exists_action_of_run (hb : p.grammar.Builds target p.table)
    (hpath : (p.grammar.automatonOf target).Path p.grammar labels c.frames)
    (hfetch : c.fetch = .ok (token, c₁)) (h : p.run fuel c = .ok tree) :
    ∃ a, p.table.action? c.state token.symbol = some a ∧ a ≠ .fail := by
  cases fuel with
  | zero => cases h
  | succ fuel =>
    cases ha : p.table.action? c.state token.symbol with
    | some a =>
      refine ⟨a, rfl, ?_⟩
      rintro rfl
      have hchoose : p.choose c₁.state token.symbol c₁.fallen = .direct .fail := by
        simp only [choose, state_of_fetch hfetch, ha]
      simp [run, step, hfetch, hchoose] at h
    | none =>
      rw [← state_of_fetch hfetch] at ha
      have hchoice : p.choose c₁.state token.symbol c₁.fallen = .stuck ∨
          ∃ rule, p.choose c₁.state token.symbol c₁.fallen = .fallback rule :=
        choose_of_action?_eq_none ha
      rcases hchoice with hstuck | ⟨rule, hchoose⟩
      · simp [run, step, hfetch, hstuck] at h
      · -- after a fallback the parser accepts no more
        exact absurd h
          ((refuses_of_fallsBack hb hpath ⟨c₁, rule, hfetch, hchoose⟩).run_ne_ok hb _ _)

lemma held_of_fetch (h : c.fetch = .ok (token, c₁)) : c₁.held = none := by
  rw [Configuration.fetch] at h
  split at h
  · cases h; rfl
  · next hheld =>
    split at h
    · cases h; exact hheld
    · cases h
    · cases h; exact hheld

/-- The parser is about to look at the token of index `k`, and has come there by the tokens before
it. -/
structure ComesTo (p : Parser) (tokens : List Token) (k : Nat) (c : Configuration) : Prop where
  unseen : c.held = none
  sees : Sees c (tokens.drop k)
  reached : ∃ n labels, p.after (tokens.map .ok) n = some (c, labels)
  follows : ∀ tokens' : List Token,
    (∀ j < k, next (tokens'.drop j) = next (tokens.drop j)) →
      ∃ c' n, c.Alike c' ∧ Sees c' (tokens'.drop k) ∧ p.bare.Runs n (.start (tokens'.map .ok)) c'

lemma comesTo_start (p : Parser) (tokens : List Token) :
    p.ComesTo tokens 0 (.start (tokens.map .ok)) where
  unseen := rfl
  sees := rfl
  reached := ⟨0, [], rfl⟩
  follows tokens' _ := ⟨.start (tokens'.map .ok), 0, ⟨rfl, rfl⟩, rfl, .refl _ _⟩

/-- Whatever the parser has done, there was a configuration in which it had not looked at the token
it has come to. -/
lemma exists_comesTo (hb : p.grammar.Builds target p.table)
    (heoi : ∀ r ∈ p.grammar.rules, SymbolId.eoi ∉ r.clause)
    (h : p.after (tokens.map .ok) n = some (c, labels)) :
    ∃ k c₀ m, p.Reads tokens k c labels ∧ p.ComesTo tokens k c₀ ∧ p.Runs m c₀ c ∧
      (m = 0 → c₀ = c) := by
  induction n generalizing c labels with
  | zero =>
    cases h
    exact ⟨0, _, 0, reads_start p tokens, comesTo_start p tokens, .refl _ _, fun _ => rfl⟩
  | succ n ih =>
    have hafter' := h
    rw [after] at h
    split at h
    · cases h
    · next c₁ labels₁ hafter =>
      split at h
      · next c token action hstep hexec =>
        cases h
        cases action with
        | shift dest =>
          -- the token is shifted, and the next one is not looked at yet
          obtain ⟨k, hreads, hfollow⟩ := reads_after hb heoi hafter
          have hreads' := hreads.step hb (path_after hb hafter) heoi hexec hstep
          refine ⟨k + 1, c, 0, hreads', ⟨?_, hreads'.sees, ⟨n + 1, _, hafter'⟩, ?_⟩, .refl _ _,
            fun _ => rfl⟩
          · obtain ⟨c₂, hfetch, hshift⟩ := step_shift hexec
            cases hstep.symm.trans hshift
            show c₂.held = none
            exact held_of_fetch hfetch
          · intro tokens' hagree
            obtain ⟨c₁', halike, hsees, hruns⟩ :=
              hfollow tokens' fun j hj => hagree j (Nat.lt_succ_of_le hj)
            obtain ⟨c', halike', hsees', hstep'⟩ := exists_step_alike halike hreads.sees hsees
              (hagree k (Nat.lt_succ_self k)) hexec hstep
            rw [List.drop_drop] at hsees'
            exact ⟨c', _, halike', hsees', hruns.trans (runs_of_step hstep')⟩
        | reduce id =>
          obtain ⟨k, c₀, m, hreads, hcomes, hruns, -⟩ := ih hafter
          exact ⟨k, c₀, m + 1, hreads.step hb (path_after hb hafter) heoi hexec hstep, hcomes,
            hruns.trans (runs_of_step hstep), fun hm => absurd hm (Nat.succ_ne_zero m)⟩
        | accept =>
          rcases step_accept hexec with ⟨frame, frames, -, haccept⟩ | ⟨-, state, hfail⟩
          · cases hstep.symm.trans haccept
          · cases hstep.symm.trans hfail
        | fail =>
          obtain ⟨state, hfail⟩ := step_fail hexec
          cases hstep.symm.trans hfail
      · cases h

/-- Where the parser has not looked at a token yet, it has an action for the one that comes next in
a stream accepted without callbacks, if that stream has the same tokens up to there. -/
lemma ComesTo.exists_action (hb : p.grammar.Builds target p.table) (h : p.ComesTo tokens k c)
    {tokens' : List Token} (hagree : ∀ j < k, next (tokens'.drop j) = next (tokens.drop j))
    (hrun : p.bare.run fuel (.start (tokens'.map .ok)) = .ok tree) :
    ∃ a, p.table.action? c.state (next (tokens'.drop k)) = some a ∧ a ≠ .fail := by
  obtain ⟨n, labels, hafter⟩ := h.reached
  obtain ⟨c', m, halike, hsees, hruns⟩ := h.follows tokens' hagree
  have hmore := run_add hrun m
  rw [Nat.add_comm, hruns] at hmore
  obtain ⟨token, c₁, hfetch, hnext, -⟩ := hsees.fetch
  have hautomaton : p.bare.grammar.automatonOf target = p.grammar.automatonOf target := by
    rw [Grammar.automatonOf, Grammar.automatonOf, bare,
      Grammar.productions_mapRules Rule.keepsShape_bare]
  have hpath : (p.bare.grammar.automatonOf target).Path p.bare.grammar labels c'.frames := by
    rw [hautomaton]
    exact (path_after hb hafter).of_states rfl halike.states
  obtain ⟨a, ha, hne⟩ := exists_action_of_run hb.bare hpath hfetch hmore
  rw [halike.state_eq, hnext] at ha
  exact ⟨a, ha, hne⟩

end Parser

/-- The symbol may come next: some sentence goes on with it, or it is the end of input behind a
sentence. -/
def Grammar.MayFollow (g : Grammar) (tokens : List Token) (s : SymbolId) : Prop :=
  (∃ w, g.IsSentence (tokens.map Token.symbol ++ s :: w)) ∨
    s = SymbolId.eoi ∧ g.IsSentence (tokens.map Token.symbol)

namespace Parser

variable {p : Parser} {c : Configuration} {target s : SymbolId} {k : Nat} {tokens : List Token}

/-- Without conflicts whatever may come next is expected where the parser has not looked at it. -/
lemma ComesTo.mem_expectedIn (hb : p.grammar.Builds target p.table)
    (hconflicts : p.table.conflicts = [])
    (heoi : ∀ r ∈ p.grammar.rules, SymbolId.eoi ∉ r.clause)
    (hepsilon : ∀ r ∈ p.grammar.rules, SymbolId.epsilon ∉ r.symbols)
    (h : p.ComesTo tokens k c) (hk : k ≤ tokens.length)
    (hs : p.grammar.MayFollow (tokens.take k) s) :
    s ∈ p.table.expectedIn c.state ∧ s ≠ SymbolId.epsilon := by
  have hlength : (tokens.take k).length = k := List.length_take_of_le hk
  have hagree : ∀ rest : List Token, ∀ j < k,
      next ((tokens.take k ++ rest).drop j) = next (tokens.drop j) := by
    intro rest j hj
    cases k with
    | zero => exact absurd hj (Nat.not_lt_zero j)
    | succ k => exact agreeUpTo_take hk rest j (Nat.le_of_lt_succ hj)
  rcases hs with ⟨w, hw⟩ | ⟨rfl, hw⟩
  · -- the tokens read, and behind them the symbol and the rest of the sentence
    let rest : List Token := (s :: w).map fun s => ⟨s, "", 0, 0⟩
    have hw' : p.grammar.IsSentence ((tokens.take k ++ rest).map Token.symbol) := by
      rwa [List.map_append, List.map_map, Function.comp_def, List.map_id']
    obtain ⟨fuel, tree, hrun⟩ := exists_run_of_isSentence hb hconflicts heoi hepsilon hw'
    have haction := h.exists_action hb (hagree rest) hrun
    rw [List.drop_left' hlength] at haction
    have hmem : s ∈ (tokens.take k).map Token.symbol ++ s :: w := by simp
    obtain ⟨r, hr, hmem'⟩ := hb.valid.exists_rule_of_mem hw hmem
    obtain ⟨-, -, -, hterminal⟩ := hw
    exact ⟨hb.mem_expectedIn.mpr ⟨hterminal s hmem, haction⟩,
      fun heq => hepsilon r hr (heq ▸ hmem')⟩
  · obtain ⟨fuel, tree, hrun⟩ := exists_run_of_isSentence hb hconflicts heoi hepsilon hw
    have hagree' := hagree []
    rw [List.append_nil] at hagree'
    have haction := h.exists_action hb hagree' hrun
    rw [List.drop_eq_nil_of_le (Nat.le_of_eq hlength)] at haction
    exact ⟨hb.mem_expectedIn.mpr ⟨hb.valid.isTerminal_eoi, haction⟩, by decide⟩

end Parser

namespace Grammar

variable {g : Grammar} {p : Parser}

/-- If the table of a grammar, in which `ε` stands for an empty clause only, has no conflicts, then
whatever may come next behind the tokens read is expected where the parser has not yet looked at the
token it rejects. So if the parser rejects it in the first step it takes with it, the error lists
all that may come instead. -/
theorem Valid.expected_at_first_sight (hg : g.Valid) (hk : g.KeysFit)
    (heoi : ∀ r ∈ g.rules, SymbolId.eoi ∉ r.clause)
    (hepsilon : ∀ r ∈ g.rules, SymbolId.epsilon ∉ r.symbols) {t : ActionTable}
    (ht : g.table = .ok t) (hconflicts : t.conflicts = []) (hp : g.parser = .ok p)
    {tokens : List Token} {token : Token} {tokenType : String} {expected : List String} {fuel : Nat}
    (h : p.run fuel (.start (tokens.map .ok)) = .error (.unexpected token tokenType expected)) :
    ∃ k c₀ c m, p.FailsAt tokens k c (.unexpected token tokenType expected) ∧
      (tokens[k]? = some token ∨ k = tokens.length ∧ token.symbol = SymbolId.eoi) ∧
      p.ComesTo tokens k c₀ ∧ p.Runs m c₀ c ∧
      ∀ s, g.MayFollow (tokens.take k) s →
        s ∈ p.table.expectedIn c₀.state ∧ (m = 0 → g.symbols.name s ∈ expected) := by
  obtain ⟨hgrammar, target, htarget, hb⟩ := builds_of_parser_eq_ok hg hk hp
  obtain ⟨target', hb'⟩ := exists_builds hg hk ht
  cases hb'.accepts.symm.trans htarget
  have hconflicts' : p.table.conflicts = [] :=
    hb'.conflicts_inheritLevels (hgrammar ▸ hb) hconflicts
  have heoi' : ∀ r ∈ p.grammar.rules, SymbolId.eoi ∉ r.clause := by
    rw [hgrammar]
    exact List.forall_mem_map.mpr heoi
  have hepsilon' : ∀ r ∈ p.grammar.rules, SymbolId.epsilon ∉ r.symbols := by
    rw [hgrammar]
    exact List.forall_mem_map.mpr hepsilon
  have hfollow : ∀ {tokens s}, g.MayFollow tokens s → p.grammar.MayFollow tokens s := by
    intro tokens s hs
    rw [hgrammar]
    exact hs.imp (Exists.imp fun w => (isSentence_mapRules (keepsShape_inherited g)).mpr)
      (And.imp_right (isSentence_mapRules (keepsShape_inherited g)).mpr)
  -- the step that fails, and the configuration before any step with its token
  have hstart : p.after (tokens.map .ok) 0 = some (.start (tokens.map .ok), []) := rfl
  obtain ⟨n, c, labels, hafter, hfail⟩ := Parser.exists_after_of_run_error h hstart (by simp)
  obtain ⟨⟨c₁, hfetch⟩, herror, -⟩ :=
    Parser.rejected_of_step hb (Parser.path_after hb hafter) hfail
  obtain ⟨k, c₀, m, hreads, hcomes, hruns, hsame⟩ := Parser.exists_comesTo hb heoi' hafter
  refine ⟨k, c₀, c, m, ⟨hreads.le, hreads.sees, ⟨n, labels, hafter⟩, hfail⟩,
    hreads.sees.getElem? hreads.le hfetch, hcomes, hruns, fun s hs => ?_⟩
  obtain ⟨hmem, hne⟩ :=
    hcomes.mem_expectedIn hb hconflicts' heoi' hepsilon' hreads.le (hfollow hs)
  refine ⟨hmem, fun hm => ?_⟩
  rw [hsame hm] at hmem
  obtain ⟨-, -, rfl⟩ := ParseError.unexpected.inj herror
  have hname : p.grammar.symbols.name s = g.symbols.name s := by
    rw [hgrammar]
    rfl
  exact hname ▸ List.mem_map_of_mem (List.mem_filter.mpr ⟨hmem, by simpa using hne⟩)

/-- A part that may be left out: `S → a Opt b`, `Opt → ε` and `Opt → c`. No clause has `x`. -/
def omitting : Grammar where
  name := none
  symbols := ⟨SymbolTable.initial.entries ++ [⟨.nonterminal, "S"⟩, ⟨.nonterminal, "Opt"⟩,
    ⟨.terminal, "a"⟩, ⟨.terminal, "b"⟩, ⟨.terminal, "c"⟩, ⟨.terminal, "x"⟩]⟩
  rules := [.plain 0 2 [4, 3, 5], .plain 1 3 [1], .plain 2 3 [6]]
  levels := []
  target := some 2

lemma valid_omitting : omitting.Valid :=
  ⟨⟨_, rfl⟩, rfl, by decide, by decide, by decide, rfl⟩

lemma keysFit_omitting : omitting.KeysFit := by
  rintro target ⟨⟩
  decide

lemma conflicts_omitting :
    ((omitting.productions 2).basis.automaton.table omitting).conflicts = [] := by
  decide +kernel

lemma parser_omitting : omitting.parser =
    .ok ⟨omitting, (omitting.productions 2).basis.automaton.table omitting⟩ := by
  have hlevels : omitting.inheritLevels = omitting :=
    inheritLevels_of_no_levels rfl (by simp [omitting, Rule.plain])
  rw [Grammar.parser, hlevels]
  rfl

lemma parse_omitting :
    Parser.parse ⟨omitting, (omitting.productions 2).basis.automaton.table omitting⟩
      ([⟨4, "a", 1, 1⟩, ⟨7, "x", 1, 2⟩].map .ok) =
        .error (.unexpected ⟨7, "x", 1, 2⟩ "x" ["b"]) := by
  obtain ⟨fuel, hfuel⟩ := Nat.exists_eq_add_of_le' (Parser.four_le_stepLimit omitting 2)
  rw [Parser.parse]
  simp only [List.length_map, List.length_cons, List.length_nil]
  rw [hfuel]
  rfl

/-- `a c b` is a sentence. -/
lemma mayFollow_omitting : omitting.MayFollow [⟨4, "a", 1, 1⟩] 6 := by
  have hs : omitting.Rewrites [2] [4, 3, 5] :=
    .expand [] [] (r := .plain 0 2 [4, 3, 5]) (by simp [omitting])
  have hopt : omitting.Rewrites [4, 3, 5] [4, 6, 5] :=
    .expand [4] [5] (r := .plain 2 3 [6]) (by simp [omitting])
  exact .inl ⟨[5], 2, rfl, .head hs (.single hopt), by decide⟩

lemma productive_omitting {s : SymbolId} (h : (omitting.productions 2).InUse s) :
    (omitting.productions 2).Productive s := by
  have hs : ∀ {p : Nat} {prod : Production}, (omitting.productions 2).get? p = some prod →
      .nonterminal s ∈ prod.rhs → s = 2 ∨ s = 3 := by
    intro p prod hp hmem
    have hlist : ∀ prod ∈ (omitting.productions 2).list.toList, ∀ part ∈ prod.rhs,
        part = .nonterminal part.symbol → part.symbol = 2 ∨ part.symbol = 3 := by decide
    exact hlist prod (FirstSets.mem_list_iff.mpr ⟨p, hp⟩) _ hmem rfl
  have hs23 : s = 2 ∨ s = 3 := by
    cases h with
    | start hp hmem => exact hs hp hmem
    | mentioned _ hp hmem => exact hs hp hmem
  have hempty : (omitting.productions 2).get? 2 = some ⟨3, [], some 1⟩ := rfl
  have hopt := Productions.Derives.of_production hempty
  rcases hs23 with rfl | rfl
  · have hfirst : (omitting.productions 2).get? 1 =
        some ⟨2, [.terminal 4, .nonterminal 3, .terminal 5], some 0⟩ := rfl
    have hstart := Productions.Derives.of_production hfirst
    have ha : (omitting.productions 2).Derives [.terminal 4] [.terminal 4] := .refl
    have hb : (omitting.productions 2).Derives [.terminal 5] [.terminal 5] := .refl
    exact ⟨[4, 5], hstart.trans (ha.append (hopt.append hb))⟩
  · exact ⟨[], hopt⟩

/-- The parser rejects `a x` after it has left out the part that may be left out, and the error
lists `b` alone. Before that it expects `c` as well. -/
theorem expected_omitting : ∃ p, omitting.parser = .ok p ∧
    p.parse ([⟨4, "a", 1, 1⟩, ⟨7, "x", 1, 2⟩].map .ok) =
      .error (.unexpected ⟨7, "x", 1, 2⟩ "x" ["b"]) ∧
    ∃ c, p.ComesTo [⟨4, "a", 1, 1⟩, ⟨7, "x", 1, 2⟩] 1 c ∧ 6 ∈ p.table.expectedIn c.state := by
  obtain ⟨k, c, _, _, -, htoken, hcomes, -, hexpected⟩ :=
    valid_omitting.expected_at_first_sight keysFit_omitting (by decide) (by decide) rfl
      conflicts_omitting parser_omitting parse_omitting
  -- the index is that of the token `x`
  obtain rfl : k = 1 := by
    rcases htoken with h | ⟨-, h⟩
    · rcases k with _ | _ | k
      · cases h
      · rfl
      · cases h
    · cases h
  exact ⟨_, parser_omitting, parse_omitting, c, hcomes, (hexpected 6 mayFollow_omitting).1⟩

/-- An error may fail to list a terminal that can come next, though the table has no conflicts. -/
theorem unlisted_omitting : omitting.Valid ∧ omitting.KeysFit ∧
    (∀ r ∈ omitting.rules, SymbolId.eoi ∉ r.clause ∧ SymbolId.epsilon ∉ r.symbols) ∧
    (∀ s, (omitting.productions 2).InUse s → (omitting.productions 2).Productive s) ∧
    ∃ t p, omitting.table = .ok t ∧ t.conflicts = [] ∧ omitting.parser = .ok p ∧
      p.parse ([⟨4, "a", 1, 1⟩, ⟨7, "x", 1, 2⟩].map .ok) =
        .error (.unexpected ⟨7, "x", 1, 2⟩ "x" ["b"]) ∧
      omitting.MayFollow [⟨4, "a", 1, 1⟩] 6 ∧ omitting.symbols.name 6 ∉ ["b"] := by
  exact ⟨valid_omitting, keysFit_omitting, by decide, fun s hs => productive_omitting hs, _, _, rfl,
    conflicts_omitting, parser_omitting, parse_omitting, mayFollow_omitting, by decide⟩

end Grammar

end ShiftReduce
