import ShiftReduce.Proofs.Automaton.Scan
import ShiftReduce.Proofs.Parse.Run
import ShiftReduce.Proofs.Table.Offers
import ShiftReduce.Proofs.Table.Vacant
/-!
# Falling back to the `ε` column

A token without an action in some state is not expected by the item set that the labels of the stack
lead to, and no reduction makes it expected. So once the parser has turned to the `ε` column for a
token, it can only go on to reduce with this token, until it fails. A parser that rejects the token
at once accepts the same streams, with the same trees.

Main statement: `Parser.fallback_of_own_table`.
-/

namespace ShiftReduce

/-! ## What a stack expects -/

/-- The item set that the labels of a stack lead to, topmost first. -/
def Grammar.scan (g : Grammar) (target : SymbolId) (labels : List SymbolId) : ItemSet :=
  (g.productions target).scan (labels.map g.part)

/-- The terminal is expected on a stack with these labels. -/
def Grammar.Expects (g : Grammar) (target : SymbolId) (labels : List SymbolId) (t : SymbolId) :
    Prop :=
  (g.productions target).Expects (g.scan target labels) t

namespace Grammar.Builds

variable {g : Grammar} {target c : SymbolId} {t : ActionTable} {labels : List SymbolId}
  {frames : List Frame} {st : State} {r : Rule}

/-- The item set of a path has the items of the state on top. -/
lemma core_scan (h : g.Builds target t) (hpath : (g.automatonOf target).Path g labels frames)
    (hst : (g.automatonOf target).states[Configuration.topState frames]? = some st) :
    (g.scan target labels).core =
      (g.productions target).closure (st.kernelSet (g.productions target)) := by
  induction labels generalizing frames st with
  | nil =>
    cases frames with
    | cons frame frames => exact hpath.elim
    | nil =>
      obtain ⟨st₀, hst₀, hset⟩ := h.isLalr.start
      have heq : st₀ = st := Option.some.inj (hst₀.symm.trans hst)
      rw [← heq, hset]
      rfl
  | cons label labels ih =>
    cases frames with
    | nil => exact hpath.elim
    | cons frame frames =>
      obtain ⟨⟨st₀, hst₀, htarget⟩, hpath⟩ := hpath
      obtain ⟨st', hst', hset⟩ := h.exists_rest_of_target (List.mem_of_getElem? hst₀) htarget
      have heq : st' = st := Option.some.inj (hst'.symm.trans hst)
      rw [← heq, hset, ← ih hpath hst₀]
      rfl

/-- The lookaheads in the item set of a path are lookaheads of the state on top. -/
lemma lalr_of_scan (h : g.Builds target t) (hpath : (g.automatonOf target).Path g labels frames)
    (hst : (g.automatonOf target).states[Configuration.topState frames]? = some st) {i : Dotted}
    (hi : i ∈ (g.scan target labels).core) (hc : c ∈ (g.scan target labels).lookaheads i) :
    (g.productions target).Lalr (st.kernelSet (g.productions target)) i c :=
  ⟨_, Productions.canonical_scan ⟨i, hi⟩, h.core_scan hpath hst, hc⟩

/-- What is expected is called for by the state on top. -/
lemma calls_of_expects (h : g.Builds target t)
    (hpath : (g.automatonOf target).Path g labels frames)
    (hst : (g.automatonOf target).states[Configuration.topState frames]? = some st)
    (hc : g.Expects target labels c) : ∃ a, st.Calls (g.productions target).basis c a := by
  have hmem := List.mem_of_getElem? hst
  obtain ⟨i, hi, hnext⟩ := hc
  have hclosure := hi
  rw [h.core_scan hpath hst] at hclosure
  rcases hnext with ⟨β, hβ⟩ | ⟨hnil, hla⟩
  · obtain ⟨dest, hdest⟩ := h.exists_target hmem hclosure hβ
    exact ⟨_, (h.calls_shift_iff hmem).mpr hdest⟩
  · have hlalr := h.lalr_of_scan hpath hst hi hla
    obtain ⟨item, hitem, rfl, hprod⟩ := h.exists_item hmem hclosure
    rw [← Productions.remaining_eq_rest] at hnil
    cases hrule : ((g.productions target).basis.production item.key).rule with
    | some id =>
      have hlookahead := (h.isLalr.lookaheads st hmem item hitem c).mpr hlalr
      exact ⟨_, item, hitem, .reduce hnil hrule hlookahead⟩
    | none =>
      -- the production of `^` is followed by the end of input only
      have h0 : ((g.productions target).basis.dotted item.key).production = 0 := by
        by_contra hne
        obtain ⟨r, -, hr⟩ := exists_rule_of_productions_get? hprod hne
        rw [← hr] at hrule
        cases hrule
      cases (Productions.canonical_scan ⟨_, hi⟩).eq_eoi h.proper hla h0
      exact ⟨_, item, hitem, .accept hnil hrule⟩

/-- What is shifted is expected. -/
lemma expects_of_calls_shift (h : g.Builds target t)
    (hpath : (g.automatonOf target).Path g labels frames)
    (hst : (g.automatonOf target).states[Configuration.topState frames]? = some st)
    {dest : StateId} (hcalls : st.Calls (g.productions target).basis c (.shift dest)) :
    g.Expects target labels c := by
  have hmem := List.mem_of_getElem? hst
  obtain ⟨-, -, ⟨_, i, hi, β, hrest, -⟩, -⟩ :=
    (h.isLalr.goto st hmem _ dest).mp ((h.calls_shift_iff hmem).mp hcalls)
  exact ⟨i, h.core_scan hpath hst ▸ hi, .inl ⟨β, hrest⟩⟩

/-- Where the parser accepts, the end of input is expected. -/
lemma expects_of_calls_accept (h : g.Builds target t)
    (hpath : (g.automatonOf target).Path g labels frames)
    (hst : (g.automatonOf target).states[Configuration.topState frames]? = some st)
    (hcalls : st.Calls (g.productions target).basis c .accept) : g.Expects target labels c := by
  obtain ⟨rfl, hi⟩ := h.of_calls_accept (List.mem_of_getElem? hst) hcalls
  rw [h.viable_target hpath hst hi]
  have hpart : g.part target = .nonterminal target :=
    part_eq_nonterminal (h.valid.isNonterminal_target h.accepts)
  have hrest : (g.productions target).rest Dotted.start = [.nonterminal target] :=
    Productions.rest_eq (i := Dotted.start) h.proper.start
  -- the end of input stays a lookahead of `^ → . target` when the dot is moved
  have hstart : SymbolId.eoi ∈ ((g.productions target).scan []).lookaheads Dotted.start :=
    .kernel rfl ⟨rfl, rfl⟩
  have hla : SymbolId.eoi ∈ ((g.productions target).scan [.nonterminal target]).lookaheads
      Dotted.start.advance :=
    Productions.lookaheads_scan_cons hstart hrest (Productions.subset_closure _ rfl)
  rw [Expects, scan, List.map_singleton, hpart]
  exact ⟨_, Productions.Lookahead.mem_closure hla, .inr ⟨Productions.rest_advance hrest, hla⟩⟩

/-- After a reduction nothing is expected that was not expected before it. -/
lemma expects_of_reduce (h : g.Builds target t) (hr : r ∈ g.rules)
    (hlabels : labels.take r.arity = r.symbols.reverse)
    (hc : g.Expects target (r.target :: labels.drop r.arity) c) : g.Expects target labels c := by
  obtain ⟨p, hp⟩ := exists_productions_get?_of_rule target hr
  have hpart : g.part r.target = .nonterminal r.target :=
    part_eq_nonterminal (h.valid.target_nonterminal r hr)
  have hstring : labels.map g.part =
      (g.production r).rhs.reverse ++ (labels.drop r.arity).map g.part := by
    rw [production, ← List.map_reverse, ← hlabels, ← List.map_append, List.take_append_drop]
  rw [Expects, scan, List.map_cons, hpart] at hc
  rw [Expects, scan, hstring]
  exact Productions.expects_of_reduce hp hc

end Grammar.Builds

namespace Parser

/-! ## A parser without the `ε` column -/

/-- A step of a parser that does not turn to the `ε` column: a token without an action is
rejected. -/
def stepDirect (p : Parser) (c : Configuration) : Outcome :=
  match c.fetch with
  | .error e => .failed (.lexical e)
  | .ok (token, c₁) =>
    match p.table.action? c₁.state token.symbol with
    | none => .failed (p.rejection c₁.state token)
    | some _ => p.step c

/-- Takes such steps until the parse ends or the fuel is used up. -/
def runDirect (p : Parser) : Nat → Configuration → Except ParseError Tree
  | 0, _ => .error .stepLimit
  | fuel + 1, c =>
    match p.stepDirect c with
    | .running c => p.runDirect fuel c
    | .accepted tree => .ok tree
    | .failed e => .error e

/-- The token has no action, and the parser turns to the `ε` column. -/
def FallsBack (p : Parser) (c : Configuration) (token : Token) : Prop :=
  ∃ c₁ rule, c.fetch = .ok (token, c₁) ∧
    p.choose c₁.state token.symbol c₁.fallen = .fallback rule

/-- The parser looks at a token that its stack does not expect. -/
structure Refuses (p : Parser) (target : SymbolId) (c : Configuration) (labels : List SymbolId)
    (token : Token) : Prop where
  path : (p.grammar.automatonOf target).Path p.grammar labels c.frames
  fetches : ∃ c₁, c.fetch = .ok (token, c₁)
  unexpected : ¬ p.grammar.Expects target labels token.symbol

variable {p : Parser} {c c' : Configuration} {token token' : Token} {action : Action}
  {target : SymbolId} {labels : List SymbolId} {input : List Lexeme}

/-- Without an action the parser is stuck or turns to the `ε` column. -/
lemma choose_of_action?_eq_none {state : StateId} {s : SymbolId} {fallen : List StateId}
    (h : p.table.action? state s = none) :
    p.choose state s fallen = .stuck ∨ ∃ rule, p.choose state s fallen = .fallback rule := by
  simp only [choose, h]
  split
  · next rule _ =>
    split
    · exact .inl rfl
    · exact .inr ⟨rule, rfl⟩
  · exact .inl rfl

lemma action?_of_fallsBack (h : p.FallsBack c token) :
    p.table.action? c.state token.symbol = none ∧ token.symbol ≠ SymbolId.epsilon := by
  obtain ⟨c₁, rule, hfetch, hchoose⟩ := h
  rw [state_of_fetch hfetch, choose] at hchoose
  split at hchoose
  · cases hchoose
  · next hnone =>
    refine ⟨hnone, fun hepsilon => ?_⟩
    rw [hepsilon] at hnone
    rw [hnone] at hchoose
    cases hchoose

/-- A token for which the parser turns to the `ε` column is not expected. -/
lemma refuses_of_fallsBack (hb : p.grammar.Builds target p.table)
    (hpath : (p.grammar.automatonOf target).Path p.grammar labels c.frames)
    (h : p.FallsBack c token) : p.Refuses target c labels token := by
  obtain ⟨hnone, hepsilon⟩ := action?_of_fallsBack h
  obtain ⟨c₁, rule, hfetch, -⟩ := h
  refine ⟨hpath, ⟨c₁, hfetch⟩, fun hexpects => ?_⟩
  obtain ⟨st, hst⟩ := hb.exists_topState hpath
  obtain ⟨a, hcalls⟩ := hb.calls_of_expects hpath hst hexpects
  exact hb.not_calls_of_action?_eq_none hst hepsilon (hexpects.lt_width hb.proper) hnone a hcalls

/-- A token that is not expected is neither shifted nor accepted on. -/
lemma Refuses.executed (hb : p.grammar.Builds target p.table)
    (h : p.Refuses target c labels token) (hexec : p.executed c = some (token', action)) :
    token' = token ∧ ((∃ id, action = .reduce id) ∨ action = .fail) := by
  obtain ⟨st, hst⟩ := hb.exists_topState h.path
  obtain ⟨c₁, hfetch, -⟩ := choose_of_executed hexec
  obtain ⟨c₂, hfetch'⟩ := h.fetches
  rw [hfetch, Except.ok.injEq, Prod.mk.injEq] at hfetch'
  obtain ⟨rfl, -⟩ := hfetch'
  obtain ⟨s, ha, hs⟩ := action_of_executed hexec
  have hcalls := hb.calls_of_action hst ha
  refine ⟨rfl, ?_⟩
  cases action with
  | shift dest =>
    have hs : s = token'.symbol := hs.resolve_right (by simp)
    have hexpects := hb.expects_of_calls_shift h.path hst (hcalls.resolve_left (by simp))
    exact absurd (hs ▸ hexpects) h.unexpected
  | reduce id => exact .inl ⟨id, rfl⟩
  | accept =>
    have hs : s = token'.symbol := hs.resolve_right (by simp)
    have hexpects := hb.expects_of_calls_accept h.path hst (hcalls.resolve_left (by simp))
    exact absurd (hs ▸ hexpects) h.unexpected
  | fail => exact .inr rfl

/-- A step leaves the same token to be looked at, and leaves it unexpected. -/
lemma Refuses.step (hb : p.grammar.Builds target p.table) (h : p.Refuses target c labels token)
    (hexec : p.executed c = some (token', action)) (hstep : p.step c = .running c') :
    p.Refuses target c' (p.relabel labels token' action) token := by
  have hpath := path_step hb h.path hexec hstep
  obtain ⟨rfl, ⟨id, rfl⟩ | rfl⟩ := h.executed hb hexec
  · obtain ⟨r, hr, -, hlabels, -⟩ := (agrees_of_path hb h.path).reduces token' id hexec
    refine ⟨hpath, ?_, fun hexpects => ?_⟩
    · obtain ⟨c₁, -, ⟨e, -, hfail⟩ | ⟨frames, fallen, -, hrun⟩⟩ := step_reduce hexec
      · cases hstep.symm.trans hfail
      · cases hstep.symm.trans hrun
        exact ⟨_, rfl⟩
    · rw [relabel, hr] at hexpects
      exact h.unexpected (hb.expects_of_reduce (List.mem_of_getElem? hr) hlabels hexpects)
  · obtain ⟨state, hfail⟩ := step_fail hexec
    cases hstep.symm.trans hfail

/-- No stream is accepted past a token that is not expected. -/
lemma Refuses.run_ne_ok (hb : p.grammar.Builds target p.table)
    (h : p.Refuses target c labels token) (fuel : Nat) (tree : Tree) :
    p.run fuel c ≠ .ok tree := by
  induction fuel generalizing c labels with
  | zero => simp [run]
  | succ fuel ih =>
    rw [run]
    split
    · next c' hstep =>
      obtain ⟨token', action, hexec⟩ := executed_of_step hstep
      exact ih (h.step hb hexec hstep)
    · next tree' hstep =>
      obtain ⟨token', hexec⟩ := executed_of_accepted hstep
      obtain ⟨-, ⟨id, hid⟩ | hfail⟩ := h.executed hb hexec
      · cases hid
      · cases hfail
    · simp

/-- The token stays the one looked at, and unexpected, for as long as the parse goes on. -/
lemma Refuses.after (hb : p.grammar.Builds target p.table) {n m : Nat} (hle : n ≤ m)
    (hafter : p.after input n = some (c, labels)) (h : p.Refuses target c labels token)
    {labels' : List SymbolId} (hafter' : p.after input m = some (c', labels')) :
    p.Refuses target c' labels' token := by
  induction m, hle using Nat.le_induction generalizing c' labels' with
  | base =>
    rw [hafter, Option.some.injEq, Prod.mk.injEq] at hafter'
    obtain ⟨rfl, rfl⟩ := hafter'
    exact h
  | succ m _ ih =>
    rw [Parser.after] at hafter'
    split at hafter'
    · cases hafter'
    · next c₀ labels₀ hafter₀ =>
      split at hafter'
      · next c₁ token' action hstep hexec =>
        cases hafter'
        exact (ih hafter₀).step hb hexec hstep
      · cases hafter'

/-- Where the parser does not turn to the `ε` column, the two steps are the same. -/
lemma stepDirect_of_not_fallsBack (h : ∀ token, ¬ p.FallsBack c token) :
    p.stepDirect c = p.step c := by
  rw [stepDirect]
  split
  · next e hfetch => rw [step, hfetch]
  · next token c₁ hfetch =>
    split
    · next hnone =>
      have hstuck : p.choose c₁.state token.symbol c₁.fallen = .stuck :=
        (choose_of_action?_eq_none hnone).resolve_right
          (not_exists.mpr fun rule hchoose => h token ⟨c₁, rule, hfetch, hchoose⟩)
      simp only [step, hfetch, hstuck]
    · rfl

lemma stepDirect_of_fallsBack (h : p.FallsBack c token) :
    ∃ state, p.stepDirect c = .failed (p.rejection state token) := by
  obtain ⟨hnone, -⟩ := action?_of_fallsBack h
  obtain ⟨c₁, -, hfetch, -⟩ := h
  rw [← state_of_fetch hfetch] at hnone
  exact ⟨c₁.state, by simp only [stepDirect, hfetch, hnone]⟩

lemma run_eq_ok_iff_runDirect (hb : p.grammar.Builds target p.table)
    (hpath : (p.grammar.automatonOf target).Path p.grammar labels c.frames) (fuel : Nat)
    (tree : Tree) : p.run fuel c = .ok tree ↔ p.runDirect fuel c = .ok tree := by
  induction fuel generalizing c labels with
  | zero => rfl
  | succ fuel ih =>
    by_cases hfalls : ∃ token, p.FallsBack c token
    · obtain ⟨token, hfalls⟩ := hfalls
      obtain ⟨state, hreject⟩ := stepDirect_of_fallsBack hfalls
      have hdirect : p.runDirect (fuel + 1) c = .error (p.rejection state token) := by
        simp only [runDirect, hreject]
      rw [hdirect]
      exact iff_of_false ((refuses_of_fallsBack hb hpath hfalls).run_ne_ok hb _ tree) (by simp)
    · rw [run, runDirect, stepDirect_of_not_fallsBack (not_exists.mp hfalls)]
      cases hstep : p.step c with
      | running c' =>
        obtain ⟨token, action, hexec⟩ := executed_of_step hstep
        exact ih (path_step hb hpath hexec hstep)
      | accepted tree' => rfl
      | failed e => rfl

/-- Once a parser with its own table has turned to the `ε` column for a token, all it does is to
reduce with that token and at last to fail. So it returns a tree if and only if the parser that
rejects the token at once does, and then the same tree. -/
theorem fallback_of_own_table (hg : p.grammar.Valid) (hk : p.grammar.KeysFit)
    (hp : p.grammar.table = .ok p.table) (input : List Lexeme) :
    (∀ n c labels token, p.after input n = some (c, labels) → p.FallsBack c token →
      ∀ m c' labels' token' action, n ≤ m → p.after input m = some (c', labels') →
        p.executed c' = some (token', action) →
          token' = token ∧ ((∃ id, action = .reduce id) ∨ action = .fail)) ∧
    ∀ fuel tree, p.run fuel (.start input) = .ok tree ↔
      p.runDirect fuel (.start input) = .ok tree := by
  obtain ⟨target, hb⟩ := Grammar.exists_builds hg hk hp
  refine ⟨?_, fun fuel tree => run_eq_ok_iff_runDirect hb (path_start p target input) fuel tree⟩
  intro n c labels token hafter hfalls m c' labels' token' action hle hafter' hexec
  have hrefuses := refuses_of_fallsBack hb (path_after hb hafter) hfalls
  exact (hrefuses.after hb hle hafter hafter').executed hb hexec

end Parser

namespace Grammar

/-- Brackets that match: `S → ( S ) S` and `S → ε`. -/
def balanced : Grammar where
  name := none
  symbols := ⟨SymbolTable.initial.entries ++
    [⟨.nonterminal, "S"⟩, ⟨.terminal, "("⟩, ⟨.terminal, ")"⟩]⟩
  rules := [.plain 0 2 [3, 2, 4, 2], .plain 1 2 [1]]
  levels := []
  target := some 2

lemma valid_balanced : balanced.Valid :=
  ⟨⟨_, rfl⟩, rfl, by decide, by decide, by decide, rfl⟩

lemma keysFit_balanced : balanced.KeysFit := by
  rintro target ⟨⟩
  decide

end Grammar

namespace Parser

/-- The parser of `S → ( S ) S` and `S → ε`, with its own table. -/
def balanced : Parser :=
  ⟨.balanced, (Grammar.balanced.productions 2).basis.automaton.table .balanced⟩

/-- With `(` alone the parser turns to the `ε` column at the end of input, and rejects it. -/
theorem fallback_balanced : balanced.grammar.Valid ∧ balanced.grammar.KeysFit ∧
    balanced.grammar.table = .ok balanced.table ∧ ∃ c labels,
      balanced.after [.ok ⟨3, "(", 1, 1⟩] 1 = some (c, labels) ∧
      balanced.FallsBack c (.endOfInput 1 2) ∧
      (∀ m c' labels' token' action, 1 ≤ m →
        balanced.after [.ok ⟨3, "(", 1, 1⟩] m = some (c', labels') →
        balanced.executed c' = some (token', action) →
          token' = .endOfInput 1 2 ∧ ((∃ id, action = .reduce id) ∨ action = .fail)) ∧
      ∀ fuel tree, balanced.run fuel (.start [.ok ⟨3, "(", 1, 1⟩]) = .ok tree ↔
        balanced.runDirect fuel (.start [.ok ⟨3, "(", 1, 1⟩]) = .ok tree := by
  have hvalid : balanced.grammar.Valid := Grammar.valid_balanced
  have hafter : balanced.after [.ok ⟨3, "(", 1, 1⟩] 1 =
      some (⟨[⟨.leaf ⟨3, "(", 1, 1⟩, 2⟩], none, [], (1, 2), []⟩, [3]) := by
    rfl
  have hfalls : balanced.FallsBack ⟨[⟨.leaf ⟨3, "(", 1, 1⟩, 2⟩], none, [], (1, 2), []⟩
      (.endOfInput 1 2) := ⟨_, 1, rfl, rfl⟩
  obtain ⟨hactions, hruns⟩ := fallback_of_own_table (p := balanced) hvalid
    Grammar.keysFit_balanced rfl [.ok ⟨3, "(", 1, 1⟩]
  exact ⟨hvalid, Grammar.keysFit_balanced, rfl, _, _, hafter, hfalls,
    hactions 1 _ _ _ hafter hfalls, hruns⟩

/-- Where keys wrap around a parser may turn to the `ε` column at the end of input and accept on
it. -/
theorem accepted_overlaid : Grammar.overlaid.Valid ∧ ∃ p tree, Grammar.overlaid.parser = .ok p ∧
    p.parse [.ok ⟨5, "(", 1, 1⟩] = .ok tree ∧
    (∀ fuel tree, p.runDirect fuel (.start [.ok ⟨5, "(", 1, 1⟩]) ≠ .ok tree) ∧
    ∃ c labels c' labels' token, p.after [.ok ⟨5, "(", 1, 1⟩] 1 = some (c, labels) ∧
      p.FallsBack c token ∧ p.after [.ok ⟨5, "(", 1, 1⟩] 2 = some (c', labels') ∧
      p.executed c' = some (token, .accept) := by
  have hparse : ∀ n m, Parser.parse ⟨.vacant n m, Grammar.vacantTable n m⟩
      [.ok ⟨5, "(", 1, 1⟩] = .ok (.node 0 2 []) := by
    intro n m
    obtain ⟨fuel, hfuel⟩ := Nat.exists_eq_add_of_le' (four_le_stepLimit (.vacant n m) 1)
    rw [Parser.parse]
    simp only [List.length_cons, List.length_nil]
    rw [hfuel]
    rfl
  have hdirect : ∀ n m fuel tree, Parser.runDirect ⟨.vacant n m, Grammar.vacantTable n m⟩ fuel
      (.start [.ok ⟨5, "(", 1, 1⟩]) ≠ .ok tree := by
    rintro n m (_ | _ | fuel) tree h
    · cases h
    · cases h
    · cases h
  have hfalls : ∀ n m, ∃ c labels c' labels' token,
      Parser.after ⟨.vacant n m, Grammar.vacantTable n m⟩ [.ok ⟨5, "(", 1, 1⟩] 1 =
        some (c, labels) ∧
      FallsBack ⟨.vacant n m, Grammar.vacantTable n m⟩ c token ∧
      Parser.after ⟨.vacant n m, Grammar.vacantTable n m⟩ [.ok ⟨5, "(", 1, 1⟩] 2 =
        some (c', labels') ∧
      executed ⟨.vacant n m, Grammar.vacantTable n m⟩ c' = some (token, .accept) :=
    fun n m => ⟨_, _, _, _, .endOfInput 1 2, rfl, ⟨_, 0, rfl, rfl⟩, rfl, rfl⟩
  exact ⟨Grammar.valid_vacant (by decide), _, _, Grammar.parser_overlaid, hparse _ _,
    hdirect _ _, hfalls _ _⟩

end Parser

end ShiftReduce
