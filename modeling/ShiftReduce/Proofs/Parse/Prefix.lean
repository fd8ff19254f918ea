import ShiftReduce.Proofs.Grammar.Names
import ShiftReduce.Proofs.Grammar.Sentence
import ShiftReduce.Proofs.Parse.Fallback
import ShiftReduce.Proofs.Parse.Lockstep
/-!
# Where errors are reported

A parser that fails at a token has read only what some sentence begins with, even if it reduced on
that token before. If the table has no conflicts, no sentence goes on with that token, and the token
is the first of this kind. In the state where it fails the parser has no action for the token, so
the error does not name the token among those that were expected.

Main statement: `Grammar.Valid.correct_prefix`.
-/

namespace ShiftReduce

namespace Parser

/-- The parse of the tokens comes to a configuration with the token of index `k` ahead, where the
length of the stream is the index of the end of input, and fails there. -/
structure FailsAt (p : Parser) (tokens : List Token) (k : Nat) (c : Configuration)
    (e : ParseError) : Prop where
  le : k ≤ tokens.length
  sees : Sees c (tokens.drop k)
  reached : ∃ n labels, p.after (tokens.map .ok) n = some (c, labels)
  fails : p.step c = .failed e

variable {p : Parser} {c c₁ : Configuration} {token : Token} {target : SymbolId} {k : Nat}
  {labels : List SymbolId} {tokens : List Token} {input : List Lexeme} {tokenType : String}
  {expected : List String}

/-- An error other than a want of steps is that of some step. -/
lemma exists_after_of_run_error {fuel n : Nat} {e : ParseError} (h : p.run fuel c = .error e)
    (hafter : p.after input n = some (c, labels)) (he : e ≠ .stepLimit) :
    ∃ n c labels, p.after input n = some (c, labels) ∧ p.step c = .failed e := by
  induction fuel generalizing n c labels with
  | zero =>
    cases h
    exact absurd rfl he
  | succ fuel ih =>
    rw [run] at h
    split at h
    · next c' hstep =>
      obtain ⟨token, action, hexec⟩ := executed_of_step hstep
      have hafter' : p.after input (n + 1) = some (c', p.relabel labels token action) := by
        rw [after, hafter]
        simp only [hstep, hexec]
      exact ih h hafter'
    · cases h
    · next e' hstep =>
      cases h
      exact ⟨n, c, labels, hafter, hstep⟩

/-- A token is rejected for want of an action other than `fail`. -/
lemma rejected_of_step (hb : p.grammar.Builds target p.table)
    (hpath : (p.grammar.automatonOf target).Path p.grammar labels c.frames)
    (hstep : p.step c = .failed (.unexpected token tokenType expected)) :
    (∃ c₁, c.fetch = .ok (token, c₁)) ∧
      .unexpected token tokenType expected = p.rejection c.state token ∧
      ∀ a, p.table.action? c.state token.symbol = some a → a = .fail := by
  cases hexec : p.executed c with
  | none =>
    cases hfetch : c.fetch with
    | error e => simp [step, hfetch] at hstep
    | ok fetched =>
      obtain ⟨token', c₁⟩ := fetched
      simp only [executed, hfetch] at hexec
      split at hexec
      · cases hexec
      · cases hexec
      · next hchoose =>
        simp only [step, hfetch, hchoose, Outcome.failed.injEq] at hstep
        obtain ⟨rfl, -, -⟩ := ParseError.unexpected.inj hstep
        rw [state_of_fetch hfetch] at hstep hchoose
        refine ⟨⟨c₁, rfl⟩, hstep.symm, fun a ha => ?_⟩
        rw [choose, ha] at hchoose
        cases hchoose
  | some executed =>
    obtain ⟨token', action⟩ := executed
    have hagrees := agrees_of_path hb hpath
    cases action with
    | shift dest =>
      obtain ⟨c₁, -, hshift⟩ := step_shift hexec
      cases hstep.symm.trans hshift
    | reduce id =>
      obtain ⟨r, hr, -, -, dest, hgoto⟩ := hagrees.reduces token' id hexec
      obtain ⟨c₁, -, ⟨e, hreduce, -⟩ | ⟨frames, fallen, -, hrun⟩⟩ := step_reduce hexec
      · cases hreduce.symm.trans (reduceFrames_eq hr hgoto)
      · cases hstep.symm.trans hrun
    | accept =>
      rcases step_accept hexec with ⟨frame, frames, -, haccept⟩ | ⟨hnil, -⟩
      · cases hstep.symm.trans haccept
      · have hone := (hagrees.accepts token' hexec).1
        rw [hnil] at hone
        cases hone
    | fail =>
      obtain ⟨c₁, hfetch, -, hchoose | ⟨id, -, hid⟩⟩ := choose_of_executed hexec
      · simp only [step, hfetch, hchoose, Outcome.failed.injEq] at hstep
        obtain ⟨rfl, -, -⟩ := ParseError.unexpected.inj hstep
        obtain ⟨s, ha, hs⟩ := action_of_executed hexec
        have hs : s = token'.symbol := hs.resolve_right (by simp)
        subst hs
        rw [state_of_fetch hfetch] at hstep
        exact ⟨⟨c₁, hfetch⟩, hstep.symm, fun a ha' => Option.some.inj (ha'.symm.trans ha)⟩
      · cases hid

/-- The token looked at is the one of the index, or the end of input behind all tokens. -/
lemma Sees.getElem? (h : Sees c (tokens.drop k)) (hk : k ≤ tokens.length)
    (hfetch : c.fetch = .ok (token, c₁)) :
    tokens[k]? = some token ∨ k = tokens.length ∧ token.symbol = SymbolId.eoi := by
  obtain ⟨token', c₂, hfetch', hnext, -, ⟨rest, hrest, -⟩ | ⟨hnil, -⟩⟩ := h.fetch
  · cases hfetch.symm.trans hfetch'
    left
    rw [← List.head?_drop, hrest, List.head?_cons]
  · cases hfetch.symm.trans hfetch'
    rw [hnil] at hnext
    exact .inr ⟨Nat.le_antisymm hk (List.drop_eq_nil_iff.mp hnil), hnext⟩

/-- The name of a rejected token is not among those that are listed as expected. -/
lemma notMem_expected (hb : p.grammar.Builds target p.table)
    (hnames : p.grammar.symbols.entries.Nodup)
    (hterminal : p.grammar.symbols.isTerminal token.symbol = true) {state : StateId}
    (hlive : ∀ a, p.table.action? state token.symbol = some a → a = .fail) :
    p.grammar.symbols.name token.symbol ∉
      ((p.table.expectedIn state).filter (· != SymbolId.epsilon)).map p.grammar.symbols.name := by
  intro hmem
  obtain ⟨s, hs, hname⟩ := List.mem_map.mp hmem
  obtain ⟨hterminal', a, ha, hne⟩ := hb.mem_expectedIn.mp (List.mem_filter.mp hs).1
  cases SymbolTable.eq_of_name_eq hnames hterminal' hterminal hname
  exact hne (hlive a ha)

/-- The stream cut off behind a token, and continued in some other way, agrees with it up to this
token. -/
lemma agreeUpTo_take (hk : k < tokens.length) (rest : List Token) :
    AgreeUpTo k tokens (tokens.take (k + 1) ++ rest) := by
  intro j hj
  have hlt : j < tokens.length := Nat.lt_of_le_of_lt hj hk
  have hlt' : j < (tokens.take (k + 1) ++ rest).length := by
    rw [List.length_append, List.length_take]
    omega
  have hget : (tokens.take (k + 1) ++ rest)[j] = tokens[j] := by
    rw [List.getElem_append_left (by rw [List.length_take]; omega), List.getElem_take]
  rw [List.drop_eq_getElem_cons hlt, List.drop_eq_getElem_cons hlt', next, next, hget]

/-- A path is over the labels of an item set that is not empty. -/
lemma nonempty_scan (hb : p.grammar.Builds target p.table)
    (hpath : (p.grammar.automatonOf target).Path p.grammar labels c.frames) :
    (p.grammar.scan target labels).core.Nonempty := by
  obtain ⟨st, hst⟩ := hb.exists_topState hpath
  obtain ⟨i, hi⟩ := (hb.isLalr.reachable st (List.mem_of_getElem? hst)).nonempty
  exact ⟨i, hb.core_scan hpath hst ▸ Productions.subset_closure _ hi⟩

/-- Without conflicts a sentence is accepted, if the callbacks of the rules are left out. -/
lemma exists_run_of_isSentence (hb : p.grammar.Builds target p.table)
    (hconflicts : p.table.conflicts = [])
    (heoi : ∀ r ∈ p.grammar.rules, SymbolId.eoi ∉ r.clause)
    (hepsilon : ∀ r ∈ p.grammar.rules, SymbolId.epsilon ∉ r.symbols)
    (h : p.grammar.IsSentence (tokens.map Token.symbol)) :
    ∃ fuel tree, p.bare.run fuel (.start (tokens.map .ok)) = .ok tree := by
  have hrule : ∀ token ∈ tokens, ∃ r ∈ p.grammar.rules, token.symbol ∈ r.symbols :=
    fun token htoken => hb.valid.exists_rule_of_mem h (List.mem_map_of_mem htoken)
  obtain ⟨target', htarget', hderives, hterminals⟩ := h
  cases hb.accepts.symm.trans htarget'
  have hterminal : ∀ token ∈ tokens, p.grammar.symbols.isTerminal token.symbol = true :=
    fun token htoken => hterminals _ (List.mem_map_of_mem htoken)
  have hplain : p.bare.Plain tokens := by
    refine fun token htoken => ⟨hterminal token htoken, fun heq => ?_⟩
    obtain ⟨r, hr, hmem⟩ := hrule token htoken
    exact hepsilon r hr (heq ▸ hmem)
  have hne : ∀ token ∈ tokens, token.symbol ≠ SymbolId.eoi := by
    intro token htoken heq
    obtain ⟨r, hr, hmem⟩ := hrule token htoken
    rw [heq, Rule.symbols] at hmem
    split at hmem
    · exact List.not_mem_nil hmem
    · exact heoi r hr hmem
  obtain ⟨tree, htree⟩ := (exists_parse_iff (p := p.bare) hb.bare
    (List.forall_mem_map.mpr fun _ _ => rfl) hconflicts (List.forall_mem_map.mpr heoi) hne
    hplain).mpr ((Grammar.derives_iff_exists_tree hb.bare.valid hterminal).mp
      ((Grammar.derives_mapRules Rule.keepsShape_bare).mpr hderives))
  exact ⟨_, tree, htree⟩

end Parser

namespace Grammar

variable {g : Grammar} {p : Parser}

/-- The tokens begin a sentence. -/
def BeginsSentence (g : Grammar) (tokens : List Token) : Prop :=
  ∃ w, g.IsSentence (tokens.map Token.symbol ++ w)

/-- Without conflicts, if no stream that agrees with the tokens up to one of them is accepted, then
up to this one they begin no sentence, and if it is the end of input, they are none. -/
lemma not_beginsSentence_of_refused {target : SymbolId} {tokens : List Token} {k : Nat}
    (hb : p.grammar.Builds target p.table) (hconflicts : p.table.conflicts = [])
    (heoi : ∀ r ∈ p.grammar.rules, SymbolId.eoi ∉ r.clause)
    (hepsilon : ∀ r ∈ p.grammar.rules, SymbolId.epsilon ∉ r.symbols)
    (hrefuse : ∀ tokens', Parser.AgreeUpTo k tokens tokens' → ∀ fuel tree,
      p.bare.run fuel (.start (tokens'.map .ok)) ≠ .ok tree) :
    (k < tokens.length → ¬ p.grammar.BeginsSentence (tokens.take (k + 1))) ∧
      (k = tokens.length → ¬ p.grammar.IsSentence (tokens.map Token.symbol)) := by
  have hnone : ∀ tokens', Parser.AgreeUpTo k tokens tokens' →
      ¬ p.grammar.IsSentence (tokens'.map Token.symbol) := by
    intro tokens' hagree hw
    obtain ⟨fuel, tree, hrun⟩ := Parser.exists_run_of_isSentence hb hconflicts heoi hepsilon hw
    exact hrefuse tokens' hagree fuel tree hrun
  refine ⟨fun hlt => ?_, fun _ => hnone tokens fun _ _ => rfl⟩
  rintro ⟨w, hw⟩
  refine hnone (tokens.take (k + 1) ++ w.map fun s => ⟨s, "", 0, 0⟩)
    (Parser.agreeUpTo_take hlt _) ?_
  rwa [List.map_append, List.map_map, Function.comp_def, List.map_id']

/-- If the parser of a grammar, in which every non-terminal in use derives some string of terminals
and `ε` stands for an empty clause only, rejects a token, then the tokens before it begin a
sentence. If moreover the table of the grammar has no conflicts, then with the rejected token they
do not, and at the end of input they are no sentence. The parser has no action other than `fail`
for the rejected token, and the error does not list it. -/
theorem Valid.correct_prefix (hg : g.Valid) (hk : g.KeysFit) (hnames : g.symbols.entries.Nodup)
    (heoi : ∀ r ∈ g.rules, SymbolId.eoi ∉ r.clause)
    (hepsilon : ∀ r ∈ g.rules, SymbolId.epsilon ∉ r.symbols)
    (hproductive : ∀ target, g.target = some target →
      ∀ s, (g.productions target).InUse s → (g.productions target).Productive s)
    (hp : g.parser = .ok p) {tokens : List Token}
    (htokens : ∀ token ∈ tokens, g.symbols.isTerminal token.symbol = true ∧
      token.symbol ≠ SymbolId.eoi ∧ token.symbol ≠ SymbolId.epsilon)
    {token : Token} {tokenType : String} {expected : List String} {fuel : Nat}
    (h : p.run fuel (.start (tokens.map .ok)) = .error (.unexpected token tokenType expected)) :
    ∃ k c, p.FailsAt tokens k c (.unexpected token tokenType expected) ∧
      (tokens[k]? = some token ∨ k = tokens.length ∧ token.symbol = SymbolId.eoi) ∧
      g.BeginsSentence (tokens.take k) ∧
      (∀ t, g.table = .ok t → t.conflicts = [] →
        (k < tokens.length → ¬ g.BeginsSentence (tokens.take (k + 1))) ∧
        (k = tokens.length → ¬ g.IsSentence (tokens.map Token.symbol))) ∧
      (∀ a, p.table.action? c.state token.symbol = some a → a = .fail) ∧
      tokenType = g.symbols.name token.symbol ∧ tokenType ∉ expected := by
  obtain ⟨hgrammar, target, htarget, hb⟩ := builds_of_parser_eq_ok hg hk hp
  have heoi' : ∀ r ∈ p.grammar.rules, SymbolId.eoi ∉ r.clause := by
    rw [hgrammar]
    exact List.forall_mem_map.mpr heoi
  have hepsilon' : ∀ r ∈ p.grammar.rules, SymbolId.epsilon ∉ r.symbols := by
    rw [hgrammar]
    exact List.forall_mem_map.mpr hepsilon
  have hsymbols : p.grammar.symbols = g.symbols := by
    rw [hgrammar]
    rfl
  have hsentence : ∀ {w}, p.grammar.IsSentence w ↔ g.IsSentence w := by
    rw [hgrammar]
    exact isSentence_mapRules (keepsShape_inherited g)
  have hproductive' : ∀ s, (p.grammar.productions target).InUse s →
      (p.grammar.productions target).Productive s := by
    rw [hgrammar, productions_inheritLevels]
    exact hproductive target htarget
  -- the step that fails, and the tokens read until then
  have hstart : p.after (tokens.map .ok) 0 = some (.start (tokens.map .ok), []) := rfl
  obtain ⟨n, c, labels, hafter, hfail⟩ :=
    Parser.exists_after_of_run_error h hstart (by simp)
  obtain ⟨k, hreads, hrefuse⟩ := Parser.reads_of_failed hb heoi' hafter hfail
  have hpath := Parser.path_after hb hafter
  obtain ⟨⟨c₁, hfetch⟩, herror, hlive⟩ := Parser.rejected_of_step hb hpath hfail
  have htoken := hreads.sees.getElem? hreads.le hfetch
  have hterminal : g.symbols.isTerminal token.symbol = true := by
    rcases htoken with hget | ⟨-, heq⟩
    · exact (htokens token (List.mem_of_getElem? hget)).1
    · rw [heq]
      exact hg.isTerminal_eoi
  obtain ⟨-, rfl, rfl⟩ := ParseError.unexpected.inj herror
  refine ⟨k, c, ⟨hreads.le, hreads.sees, ⟨n, labels, hafter⟩, hfail⟩, htoken, ?begins, ?exact,
    hlive, congrArg (SymbolTable.name · token.symbol) hsymbols, ?listed⟩
  case begins =>
    obtain ⟨w, hw⟩ := hb.valid.exists_sentence hb.accepts hproductive'
      (Parser.nonempty_scan hb hpath) (by
        rw [hsymbols, List.forall_mem_map]
        exact fun token htoken => (htokens token (List.mem_of_mem_take htoken)).1) hreads.derives
    exact ⟨w, hsentence.mp hw⟩
  case exact =>
    intro t ht hconflicts
    obtain ⟨target', hb'⟩ := exists_builds hg hk ht
    cases hb'.accepts.symm.trans htarget
    have hconflicts' : p.table.conflicts = [] :=
      hb'.conflicts_inheritLevels (hgrammar ▸ hb) hconflicts
    obtain ⟨hbegins, hwhole⟩ :=
      not_beginsSentence_of_refused hb hconflicts' heoi' hepsilon' hrefuse
    exact ⟨fun hlt hw => hbegins hlt (hw.imp fun w => hsentence.mpr),
      fun hend hw => hwhole hend (hsentence.mpr hw)⟩
  case listed =>
    exact Parser.notMem_expected hb (hsymbols ▸ hnames) (hsymbols ▸ hterminal) hlive

/-- The parser of `S → ( S )` and `S → x` rejects `( )` at `)`. -/
theorem correct_prefix_nested : nested.parser = .ok Parser.nested ∧
    Parser.nested.parse [.ok ⟨3, "(", 1, 1⟩, .ok ⟨4, ")", 1, 2⟩] =
      .error (.unexpected ⟨4, ")", 1, 2⟩ ")" ["(", "x"]) ∧
    nested.BeginsSentence [⟨3, "(", 1, 1⟩] ∧
    ¬ nested.BeginsSentence [⟨3, "(", 1, 1⟩, ⟨4, ")", 1, 2⟩] ∧ ")" ∉ ["(", "x"] := by
  have hparse : Parser.nested.parse [.ok ⟨3, "(", 1, 1⟩, .ok ⟨4, ")", 1, 2⟩] =
      .error (.unexpected ⟨4, ")", 1, 2⟩ ")" ["(", "x"]) := by
    obtain ⟨fuel, hfuel⟩ := Nat.exists_eq_add_of_le' (Parser.four_le_stepLimit nested 2)
    rw [Parser.parse]
    simp only [List.length_cons, List.length_nil]
    rw [Parser.nested, hfuel]
    rfl
  have hparse' : Parser.nested.parse ([⟨3, "(", 1, 1⟩, ⟨4, ")", 1, 2⟩].map .ok) =
      .error (.unexpected ⟨4, ")", 1, 2⟩ ")" ["(", "x"]) := hparse
  have hconflicts : ((nested.productions 2).basis.automaton.table nested).conflicts = [] := by
    decide +kernel
  obtain ⟨k, c, -, htoken, hbegins, hexact, -, -, hlisted⟩ := valid_nested.correct_prefix
    keysFit_nested (by decide) (by decide) (by decide)
    (fun target htarget s hs => by cases htarget; exact productive_nested hs)
    Parser.parser_nested (by decide) hparse'
  -- the index is that of the token `)`
  obtain rfl : k = 1 := by
    rcases htoken with h | ⟨-, h⟩
    · rcases k with _ | _ | k
      · cases h
      · rfl
      · cases h
    · cases h
  exact ⟨Parser.parser_nested, hparse, hbegins, (hexact _ rfl hconflicts).1 (by decide), hlisted⟩

lemma productive_crowded {n m : Nat} (hn : n ≠ 0) {s : SymbolId}
    (h : ((crowded n m).productions 2).InUse s) : ((crowded n m).productions 2).Productive s := by
  have hs : s = 2 ∨ s = 4 := by
    induction h with
    | start hp hmem =>
      cases (crowded_get? hn).1.symm.trans hp
      exact .inl (by simpa using hmem)
    | @mentioned p prod s _ hp hmem ih =>
      have hprod : prod ∈ ((crowded n m).productions 2).list.toList := FirstSets.mem_list_iff.mpr
        ⟨p, hp⟩
      simp only [crowded_productions hn, usable, List.mem_append, List.mem_cons, List.not_mem_nil,
        or_false] at hprod
      rcases hprod with ((rfl | rfl | rfl) | hidle) | rfl
      · simp at ih
      · simp at hmem
      · exact .inr (by simpa using hmem)
      · rw [(idle_bounds prod hidle).1] at ih
        simp at ih
      · simp at hmem
  rcases hs with rfl | rfl
  · exact ⟨[6], Productions.Derives.of_production (crowded_get? hn).2.1⟩
  · obtain ⟨p, hp⟩ := exists_productions_get?_of_rule (g := crowded n m) 2
      (r := .plain (m + 3) 4 [7]) (by simp [crowded])
    exact ⟨[7], Productions.Derives.of_production hp⟩

/-- Where keys wrap around a parser may fail at a token though the tokens up to it are a sentence,
and the table has no conflicts. -/
theorem late_overfull : overfull.Valid ∧ overfull.symbols.entries.Nodup ∧
    (∀ r ∈ overfull.rules, SymbolId.eoi ∉ r.clause ∧ SymbolId.epsilon ∉ r.clause) ∧
    overfull.target = some 2 ∧
    (∀ s, (overfull.productions 2).InUse s → (overfull.productions 2).Productive s) ∧
    ∃ t p expected, overfull.table = .ok t ∧ t.conflicts = [] ∧ overfull.parser = .ok p ∧
      p.parse [.ok ⟨5, "(", 1, 1⟩, .ok ⟨7, "y", 1, 2⟩] =
        .error (.unexpected ⟨7, "y", 1, 2⟩ "y" expected) ∧
      overfull.IsSentence [5, 7] := by
  have hparse : ∀ n m, Parser.parse ⟨crowded n m, crowdedTable n m⟩
      [.ok ⟨5, "(", 1, 1⟩, .ok ⟨7, "y", 1, 2⟩] =
      .error (.unexpected ⟨7, "y", 1, 2⟩ "y" ["(", "x"]) := by
    intro n m
    obtain ⟨fuel, hfuel⟩ := Nat.exists_eq_add_of_le' (Parser.four_le_stepLimit (crowded n m) 2)
    rw [Parser.parse]
    simp only [List.length_cons, List.length_nil]
    rw [hfuel]
    rfl
  have hsentence : ∀ n m, (crowded n m).IsSentence [5, 7] := fun n m =>
    ⟨2, rfl, crowded_derives n m,
      List.forall_mem_cons.mpr ⟨rfl, List.forall_mem_singleton.mpr rfl⟩⟩
  have hnames : ∀ n m, (crowded n m).symbols.entries.Nodup := by
    intro n m
    show (SymbolTable.initial.entries ++ _).Nodup
    decide
  refine ⟨valid_crowded (by decide), hnames _ _, fun r hr => ⟨fun h => ?_, fun h => ?_⟩, rfl,
    fun s hs => productive_crowded (by decide) hs, _, _, _, crowded_table wraps_overfull, rfl,
    parser_crowded wraps_overfull, hparse _ _, hsentence _ _⟩
  · exact absurd (two_lt_of_mem_clause r hr _ h) (by decide)
  · exact absurd (two_lt_of_mem_clause r hr _ h) (by decide)

end Grammar

end ShiftReduce
