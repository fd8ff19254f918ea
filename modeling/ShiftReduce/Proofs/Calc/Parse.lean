import ShiftReduce.Proofs.Calc.Table
import ShiftReduce.Proofs.Parse.Ending
/-!
# Parsing expressions

Regrouping loses no expression, and the table comes across every expression that is grouped. So the
parser accepts the tokens of every expression, however ambiguous its grammar is, and what it returns
is the one grouped expression with these tokens, after the callbacks.

Main statement: `Calc.parses_grouped_expressions`.
-/

namespace ShiftReduce

namespace Calc

open ShiftReduce.Parser

/-- The grammar without its callbacks. -/
def mute : Grammar := arithmetic.mapRules Rule.mute

/-- The parser of the grammar. -/
def parser : Parser := ⟨arithmetic.inheritLevels, table⟩

lemma parser_arithmetic : arithmetic.parser = .ok parser := by
  have hautomaton : arithmetic.automaton = .ok (arithmetic.automatonOf expression) := rfl
  rw [Grammar.parser, Grammar.table, Grammar.automaton_inheritLevels, hautomaton]
  rfl

lemma parser_of_mute : mute.parser = .ok parser.mute := Grammar.parser_mute_eq parser_arithmetic

lemma builds_mute : parser.mute.grammar.Builds expression parser.mute.table := by
  have hvalid : mute.Valid := ⟨⟨_, rfl⟩, rfl, by decide, by decide, by decide, rfl⟩
  have hkeys : mute.KeysFit := by
    rintro target ⟨⟩
    decide
  obtain ⟨-, target, htarget, hb⟩ := Grammar.builds_of_parser_eq_ok hvalid hkeys parser_of_mute
  cases htarget
  exact hb

lemma action_mute : ∀ r ∈ parser.mute.grammar.rules, r.action = none :=
  List.forall_mem_map.mpr fun _ _ => rfl

lemma isDerivation_mute {tree : Tree} :
    parser.mute.grammar.IsDerivation tree ↔ arithmetic.IsDerivation tree :=
  (Grammar.isDerivation_mapRules Rule.keepsShape_mute).trans Grammar.isDerivation_inheritLevels

lemma parse_eq (input : List Lexeme) :
    parser.parse input = (parser.mute.parse input).map (Tree.rebuild arithmetic.handle) :=
  valid_arithmetic.parse_parser parser_arithmetic input

variable {tree : Tree} {tokens : List Token}

/-- A grouped expression is what the parser makes of its tokens. -/
lemma parse_of_grouped (h : IsExpression tree) (hgrouped : Grouped tree) :
    parser.mute.parse (tree.yield.map .ok) = .ok tree := by
  obtain ⟨last, hgoto, hallows, haccept⟩ := steers_table.start
  have hacross := steers_table.crossed h hgrouped 0 last SymbolId.eoi hgoto
    (hallows.mono fun _ _ => trivial) (mem_enders.mpr (.inl (by decide)))
  have hlength : tree.size + 1 ≤
      stepLimit parser.mute.grammar (tree.yield.map .ok : List Lexeme).length := by
    refine Nat.le_trans ?_ (le_stepLimit _ _)
    rw [List.length_map]
    have := h.size_le
    omega
  obtain ⟨fuel, hfuel⟩ := Nat.exists_eq_add_of_le hlength
  rw [parse, hfuel, Nat.add_assoc, Nat.add_comm 1]
  exact run_of_across builds_mute.valid action_mute (isDerivation_mute.mpr h.isDerivation) hacross
    haccept fuel

/-- Whatever the parser makes of tokens that do not stand for the end of input is an expression with
these tokens. -/
lemma isExpression_of_parse (htokens : ∀ token ∈ tokens, token.symbol ≠ SymbolId.eoi)
    (h : parser.mute.parse (tokens.map .ok) = .ok tree) :
    IsExpression tree ∧ tree.yield = tokens := by
  have heoi : ∀ r ∈ parser.mute.grammar.rules, SymbolId.eoi ∉ r.clause :=
    List.forall_mem_map.mpr (List.forall_mem_map.mpr eoi_notMem_arithmetic)
  obtain ⟨hsymbol, hd, -, token, rest, hlooking, htoken⟩ := run_sound builds_mute action_mute
    heoi (path_start parser.mute expression _) (traces_start parser.mute.grammar _) h
  refine ⟨isExpression_iff.mpr ⟨isDerivation_mute.mp hd, hsymbol⟩, ?_⟩
  have hinj : Function.Injective (Except.ok : Token → Lexeme) := fun _ _ => Except.ok.inj
  rcases hlooking with hinput | ⟨hinput, -⟩
  · -- the token looked at is none of them
    have hmem : (.ok token : Lexeme) ∈ tokens.map .ok := by rw [hinput]; simp
    exact absurd htoken (htokens token ((List.mem_map_of_injective hinj).mp hmem))
  · exact (List.map_injective_iff.mpr hinj hinput).symm

/-- Without callbacks the parser returns the grouped expression with the tokens. -/
lemma parse_mute_iff (htokens : ∀ token ∈ tokens, token.symbol ≠ SymbolId.eoi) :
    parser.mute.parse (tokens.map .ok) = .ok tree ↔
      IsExpression tree ∧ Grouped tree ∧ tree.yield = tokens := by
  constructor
  · intro h
    obtain ⟨hexpression, rfl⟩ := isExpression_of_parse htokens h
    -- a regrouped expression has the same tokens, and is what the parser returns for them
    obtain ⟨tree', hexpression', hgrouped, hyield⟩ := hexpression.exists_grouped
    have h' := parse_of_grouped hexpression' hgrouped
    rw [hyield, h, Except.ok.injEq] at h'
    exact ⟨hexpression, h' ▸ hgrouped, rfl⟩
  · rintro ⟨hexpression, hgrouped, rfl⟩
    exact parse_of_grouped hexpression hgrouped

/-- There is such an expression if the tokens can be derived. -/
lemma derives_iff (htokens : ∀ token ∈ tokens, arithmetic.symbols.isTerminal token.symbol = true) :
    arithmetic.Derives [expression] (tokens.map Token.symbol) ↔
      ∃ tree, IsExpression tree ∧ Grouped tree ∧ tree.yield = tokens := by
  rw [Grammar.derives_iff_exists_tree valid_arithmetic htokens]
  constructor
  · rintro ⟨tree, hd, hsymbol, rfl⟩
    exact (isExpression_iff.mpr ⟨hd, hsymbol⟩).exists_grouped
  · rintro ⟨tree, h, -, hyield⟩
    exact ⟨tree, h.isDerivation, h.symbol, hyield⟩

/-- The parser of the grammar of expressions accepts those sequences of terminals that the rules
derive, although it resolves clashes between them. It returns what the callbacks make of the one
derivation tree that is grouped by precedence, and that is grouped by precedence too. -/
theorem parses_grouped_expressions : ∃ g p, grammar = .ok g ∧ g.parser = .ok p ∧
    g.symbols.find? .nonterminal "E" = some expression ∧
    ∀ tokens : List Token, (∀ token ∈ tokens, token.symbol ∈ g.usedTerminals) →
      ((∃ tree, p.parse (tokens.map .ok) = .ok tree) ↔
        g.Derives [expression] (tokens.map Token.symbol)) ∧
      ∀ tree, (p.parse (tokens.map .ok) = .ok tree → Grouped tree) ∧
        (p.parse (tokens.map .ok) = .ok tree ↔ ∃ derivation, g.IsDerivation derivation ∧
          derivation.symbol = expression ∧ derivation.leaves = tokens ∧ Grouped derivation ∧
          tree = derivation.rebuild g.handle) := by
  refine ⟨arithmetic, parser, grammar_eq, parser_arithmetic, by decide, fun tokens htokens => ?_⟩
  have husual : ∀ s ∈ arithmetic.usedTerminals, arithmetic.symbols.isTerminal s = true ∧
      s ≠ SymbolId.eoi := by decide
  have hterminal := fun token h => (husual _ (htokens token h)).1
  have heoi := fun token h => (husual _ (htokens token h)).2
  have hparse : ∀ tree, parser.parse (tokens.map .ok) = .ok tree ↔ ∃ derivation,
      (IsExpression derivation ∧ Grouped derivation ∧ derivation.yield = tokens) ∧
        tree = derivation.rebuild arithmetic.handle := by
    intro tree
    rw [parse_eq]
    simp only [← parse_mute_iff heoi]
    cases parser.mute.parse (tokens.map .ok) <;> simp [Except.map, eq_comm]
  refine ⟨⟨?_, ?_⟩, fun tree => ⟨?_, ?_⟩⟩
  · rintro ⟨tree, h⟩
    obtain ⟨derivation, hderivation, -⟩ := (hparse tree).mp h
    exact (derives_iff hterminal).mpr ⟨derivation, hderivation⟩
  · intro h
    obtain ⟨derivation, hderivation⟩ := (derives_iff hterminal).mp h
    exact ⟨_, (hparse _).mpr ⟨derivation, hderivation, rfl⟩⟩
  · intro h
    obtain ⟨derivation, ⟨-, hgrouped, -⟩, rfl⟩ := (hparse tree).mp h
    exact hgrouped.rebuild
  · rw [hparse]
    refine exists_congr fun derivation => ?_
    rw [isExpression_iff, Tree.leaves_eq_yield]
    tauto

/-- The tokens of `-2 ^ 3 * (4 - 5)`. -/
def negatedPower : List Token :=
  [⟨4, "-", 1, 1⟩, ⟨12, "2", 1, 2⟩, ⟨8, "^", 1, 4⟩, ⟨12, "3", 1, 6⟩, ⟨5, "*", 1, 8⟩,
    ⟨9, "(", 1, 10⟩, ⟨12, "4", 1, 11⟩, ⟨4, "-", 1, 13⟩, ⟨12, "5", 1, 15⟩, ⟨10, ")", 1, 16⟩]

/-- They are read as the product of the negated power and the difference, and the brackets go. -/
theorem parses_negatedPower : ∃ g p, grammar = .ok g ∧ g.parser = .ok p ∧
    (∀ token ∈ negatedPower, token.symbol ∈ g.usedTerminals) ∧
    g.Derives [expression] (negatedPower.map Token.symbol) ∧
    p.parse (negatedPower.map .ok) = .ok (.node 2 2
      [.node 6 2 [.leaf ⟨4, "-", 1, 1⟩,
        .node 5 2 [.node 12 2 [.leaf ⟨12, "2", 1, 2⟩], .leaf ⟨8, "^", 1, 4⟩,
          .node 12 2 [.leaf ⟨12, "3", 1, 6⟩]]],
      .leaf ⟨5, "*", 1, 8⟩,
      .node 7 2
        [.node 1 2 [.node 12 2 [.leaf ⟨12, "4", 1, 11⟩], .leaf ⟨4, "-", 1, 13⟩,
          .node 12 2 [.leaf ⟨12, "5", 1, 15⟩]]]]) := by
  obtain ⟨g, p, hg, hp, -, hparse⟩ := parses_grouped_expressions
  cases grammar_eq.symm.trans hg
  have hterminal : ∀ token ∈ negatedPower, token.symbol ∈ arithmetic.usedTerminals := by decide
  obtain ⟨haccepts, hreturns⟩ := hparse negatedPower hterminal
  -- the sign has the power as its operand, since it binds weaker
  have hnegation : Arranged (.node 6 2 [.leaf ⟨4, "-", 1, 1⟩,
      .node 5 2 [.node 12 2 [.leaf ⟨12, "2", 1, 2⟩], .leaf ⟨8, "^", 1, 4⟩,
        .node 12 2 [.leaf ⟨12, "3", 1, 6⟩]]]) :=
    .negation rfl (.binary (o := ⟨5, 8, 4⟩) (by decide) rfl (arranged_atom (by decide))
      (arranged_atom (by decide)) trivial trivial) rfl
  have hbracketed : Arranged (.node 7 2 [.leaf ⟨9, "(", 1, 10⟩,
      .node 1 2 [.node 12 2 [.leaf ⟨12, "4", 1, 11⟩], .leaf ⟨4, "-", 1, 13⟩,
        .node 12 2 [.leaf ⟨12, "5", 1, 15⟩]], .leaf ⟨10, ")", 1, 16⟩]) :=
    arranged_bracketed rfl rfl (.binary (o := ⟨1, 4, 1⟩) (by decide) rfl
      (arranged_atom (by decide)) (arranged_atom (by decide)) trivial trivial)
  have htimes : Token.symbol ⟨5, "*", 1, 8⟩ = Operator.symbol ⟨2, 5, 2⟩ := rfl
  have hproduct := Arranged.binary (by decide) htimes hnegation hbracketed (by decide) trivial
  have hresult := ((hreturns _).2).mpr ⟨_, hproduct.isExpression.isDerivation, rfl,
    (Tree.leaves_eq_yield _).trans rfl, hproduct.grouped, rfl⟩
  exact ⟨arithmetic, p, hg, hp, hterminal, haccepts.mp ⟨_, hresult⟩, hresult⟩

/-! ## A comma in front of the arguments -/

/-- The list of arguments may begin empty, so a call may have a comma in front of its arguments, of
which the result shows nothing. -/
theorem parse_leading_comma {name opening comma closing : Token} {argument : Tree}
    (hname : name.symbol = 13) (hopening : opening.symbol = 9) (hcomma : comma.symbol = 11)
    (hclosing : closing.symbol = 10) (h : IsExpression argument) (hgrouped : Grouped argument) :
    parser.parse ((name :: opening :: comma :: argument.yield ++ [closing]).map .ok) =
      .ok (.node 11 expression [.leaf name, .leaf opening,
        .node 9 arguments [argument.rebuild arithmetic.handle], .leaf closing]) := by
  have hlist : IsArguments (.node 9 arguments [.node 10 arguments [], .leaf comma, argument])
      [argument] := .more argument .empty hcomma
  have hcall := IsExpression.call hname hopening hclosing hlist (List.forall_mem_singleton.mpr h)
  have hcommas : Grouped (.node 9 arguments [.node 10 arguments [], .leaf comma, argument]) := by
    refine .other rfl fun child hchild => ?_
    simp only [List.mem_cons, List.not_mem_nil, or_false] at hchild
    rcases hchild with rfl | rfl | rfl
    · exact .other rfl (List.forall_mem_nil _)
    · exact .leaf comma
    · exact hgrouped
  have hgroup : Grouped (.node 11 expression [.leaf name, .leaf opening,
      .node 9 arguments [.node 10 arguments [], .leaf comma, argument], .leaf closing]) := by
    refine .other rfl fun child hchild => ?_
    simp only [List.mem_cons, List.not_mem_nil, or_false] at hchild
    rcases hchild with rfl | rfl | rfl | rfl
    · exact .leaf name
    · exact .leaf opening
    · exact hcommas
    · exact .leaf closing
  have hparse := parse_of_grouped hcall hgroup
  have hyield : Tree.yield (.node 11 expression [.leaf name, .leaf opening,
      .node 9 arguments [.node 10 arguments [], .leaf comma, argument], .leaf closing]) =
      name :: opening :: comma :: argument.yield ++ [closing] := by
    simp [Tree.yield, Tree.yieldAll]
  rw [hyield] at hparse
  rw [parse_eq, hparse]
  rfl

end Calc

end ShiftReduce
