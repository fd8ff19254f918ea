import ShiftReduce.Proofs.Parse.Completeness
import ShiftReduce.Proofs.Parse.Size
/-!
# Tables without conflicts

If the table of a grammar was filled without a clash, the parser accepts exactly what the grammar
derives, within the steps allowed, and the tree it returns is the only one. So such a grammar is
unambiguous.
-/

namespace ShiftReduce

namespace Parser

variable {p : Parser} {c : Configuration} {fuel : Nat} {tree : Tree}

/-- More fuel does not change what is accepted. -/
lemma run_add (h : p.run fuel c = .ok tree) (more : Nat) : p.run (fuel + more) c = .ok tree := by
  induction fuel generalizing c with
  | zero => cases h
  | succ fuel ih =>
    rw [Nat.succ_add, run]
    rw [run] at h
    split at h
    · exact ih h
    · exact h
    · cases h

/-- Two runs that accept return the same tree. -/
lemma run_unique {fuel' : Nat} {tree' : Tree} (h : p.run fuel c = .ok tree)
    (h' : p.run fuel' c = .ok tree') : tree = tree' := by
  have h₁ := run_add h fuel'
  rw [Nat.add_comm, run_add h' fuel] at h₁
  exact (Except.ok.inj h₁).symm

section Own

variable {target : SymbolId} {tokens : List Token} (hb : p.grammar.Builds target p.table)
  (hactions : ∀ r ∈ p.grammar.rules, r.action = none)

include hb hactions

/-- Where no token stands for the end of input, a tree that is returned has all of them as its
leaves. -/
lemma yield_of_run (heoi : ∀ r ∈ p.grammar.rules, SymbolId.eoi ∉ r.clause)
    (htokens : ∀ token ∈ tokens, token.symbol ≠ SymbolId.eoi)
    (h : p.run fuel (.start (tokens.map .ok)) = .ok tree) :
    tree.symbol = target ∧ p.grammar.IsDerivation tree ∧ tree.yield = tokens := by
  obtain ⟨hsymbol, hd, -, token, rest, hlooking, htoken⟩ :=
    run_sound hb hactions heoi (path_start p target _) (traces_start _ _) h
  refine ⟨hsymbol, hd, ?_⟩
  rcases hlooking with hinput | ⟨hinput, -, -⟩
  · -- the token on which the parser accepts is none of the stream
    have hmem : Except.ok token ∈ (tokens.map .ok : List Lexeme) := by
      rw [hinput]
      simp
    obtain ⟨token', htoken', heq⟩ := List.mem_map.mp hmem
    cases heq
    exact absurd htoken (htokens token htoken')
  · exact (List.map_injective_iff.mpr (fun _ _ => Except.ok.inj) hinput).symm

variable (hconflicts : p.table.conflicts = [])

include hconflicts

/-- A smallest derivation tree is returned for its leaves, within the steps allowed for them. -/
lemma parse_of_smallest (h : p.grammar.Smallest tree) (hsymbol : tree.symbol = target)
    (hplain : p.Plain tree.yield) : p.parse (tree.yield.map .ok) = .ok tree := by
  obtain ⟨fuel, hfuel⟩ := Nat.exists_eq_add_of_lt h.size_lt_stepLimit
  rw [parse, List.length_map, hfuel, Nat.add_assoc]
  exact run_of_isDerivation hb hconflicts hactions h.derivation hsymbol hplain fuel

/-- The tokens that are accepted are those of the derivation trees. -/
lemma exists_parse_iff (heoi : ∀ r ∈ p.grammar.rules, SymbolId.eoi ∉ r.clause)
    (htokens : ∀ token ∈ tokens, token.symbol ≠ SymbolId.eoi) (hplain : p.Plain tokens) :
    (∃ tree, p.parse (tokens.map .ok) = .ok tree) ↔
      ∃ tree, p.grammar.IsDerivation tree ∧ tree.symbol = target ∧ tree.yield = tokens := by
  constructor
  · rintro ⟨tree, htree⟩
    obtain ⟨hsymbol, hd, hyield⟩ := yield_of_run hb hactions heoi htokens htree
    exact ⟨tree, hd, hsymbol, hyield⟩
  · -- other trees of the same tokens may be too large for the steps allowed
    rintro ⟨tree, htree, hsymbol, rfl⟩
    obtain ⟨least, hleast, hsymbol', hyield⟩ := Grammar.exists_smallest htree
    rw [← hyield] at hplain ⊢
    exact ⟨least, parse_of_smallest hb hactions hconflicts hleast (hsymbol'.trans hsymbol) hplain⟩

/-- A tree that is returned is the only derivation tree of the tokens. -/
lemma eq_of_run (hplain : p.Plain tokens) (h : p.run fuel (.start (tokens.map .ok)) = .ok tree)
    {other : Tree} (hother : p.grammar.IsDerivation other) (hsymbol : other.symbol = target)
    (hyield : other.yield = tokens) : other = tree := by
  subst hyield
  exact run_unique (run_of_isDerivation hb hconflicts hactions hother hsymbol hplain 0) h

end Own

end Parser

namespace Grammar

variable {g : Grammar} {t : ActionTable}

/-- If the table of a grammar without callbacks has no conflicts, then for any tokens that are
terminals other than the end of input and `ε` its parser returns a tree if and only if the accepted
symbol derives the tokens, and that tree is the only derivation tree of the tokens. -/
theorem Valid.parser_exact (hg : g.Valid) (hk : g.KeysFit)
    (hactions : ∀ r ∈ g.rules, r.action = none) (heoi : ∀ r ∈ g.rules, SymbolId.eoi ∉ r.clause)
    (ht : g.table = .ok t) (hconflicts : t.conflicts = []) :
    ∃ p target, g.parser = .ok p ∧ g.target = some target ∧
      ∀ tokens : List Token, (∀ token ∈ tokens, g.symbols.isTerminal token.symbol = true ∧
          token.symbol ≠ SymbolId.eoi ∧ token.symbol ≠ SymbolId.epsilon) →
        ((∃ tree, p.parse (tokens.map .ok) = .ok tree) ↔
          g.Derives [target] (tokens.map Token.symbol)) ∧
        ∀ tree, p.parse (tokens.map .ok) = .ok tree →
          (g.IsDerivation tree ∧ tree.symbol = target ∧ tree.leaves = tokens) ∧
          ∀ other, g.IsDerivation other → other.symbol = target → other.leaves = tokens →
            other = tree := by
  obtain ⟨target, hb⟩ := exists_builds hg hk ht
  obtain ⟨p, hp⟩ := parser_exists_of_table ht
  obtain ⟨hgrammar, target', htarget', hb'⟩ := builds_of_parser_eq_ok hg hk hp
  cases hb.accepts.symm.trans htarget'
  -- the grammar of the parser has inherited levels, which change nothing that is spoken of here
  have hactions' : ∀ r ∈ p.grammar.rules, r.action = none := by
    rw [hgrammar]
    exact List.forall_mem_map.mpr hactions
  have heoi' : ∀ r ∈ p.grammar.rules, SymbolId.eoi ∉ r.clause := by
    rw [hgrammar]
    exact List.forall_mem_map.mpr heoi
  have hconflicts' : p.table.conflicts = [] :=
    hb.conflicts_inheritLevels (hgrammar ▸ hb') hconflicts
  have hderivation : ∀ {tree}, p.grammar.IsDerivation tree ↔ g.IsDerivation tree := by
    rw [hgrammar]
    exact isDerivation_inheritLevels
  refine ⟨p, target, hp, hb.accepts, fun tokens htokens => ?_⟩
  have hplain : p.Plain tokens := fun token htoken =>
    ⟨by rw [hgrammar]; exact (htokens token htoken).1, (htokens token htoken).2.2⟩
  have hne : ∀ token ∈ tokens, token.symbol ≠ SymbolId.eoi :=
    fun token htoken => (htokens token htoken).2.1
  refine ⟨?accepted, fun tree htree => ⟨?returned, fun other hother hsymbol hleaves => ?unique⟩⟩
  case accepted =>
    rw [derives_iff_exists_tree hg fun token htoken => (htokens token htoken).1,
      Parser.exists_parse_iff hb' hactions' hconflicts' heoi' hne hplain]
    simp only [hderivation]
  case returned =>
    obtain ⟨hsymbol, hd, hyield⟩ := Parser.yield_of_run hb' hactions' heoi' hne htree
    exact ⟨hderivation.mp hd, hsymbol, by rw [Tree.leaves_eq_yield, hyield]⟩
  case unique =>
    rw [Tree.leaves_eq_yield] at hleaves
    exact Parser.eq_of_run hb' hactions' hconflicts' hplain htree (hderivation.mpr hother) hsymbol
      hleaves

theorem parser_exact_nested : ∃ t p, nested.table = .ok t ∧ t.conflicts = [] ∧
    nested.parser = .ok p ∧ ∀ tokens : List Token, (∀ token ∈ tokens,
        nested.symbols.isTerminal token.symbol = true ∧ token.symbol ≠ SymbolId.eoi ∧
          token.symbol ≠ SymbolId.epsilon) →
      ((∃ tree, p.parse (tokens.map .ok) = .ok tree) ↔
        nested.Derives [2] (tokens.map Token.symbol)) := by
  have hconflicts : ((nested.productions 2).basis.automaton.table nested).conflicts = [] := by
    decide +kernel
  obtain ⟨p, target, hp, htarget, hparse⟩ := valid_nested.parser_exact keysFit_nested
    (by simp [nested, Rule.plain]) (by simp [nested, Rule.plain]) rfl hconflicts
  cases htarget
  exact ⟨_, p, rfl, hconflicts, hp, fun tokens htokens => (hparse tokens htokens).1⟩

/-- Where keys wrap around a table without conflicts may refuse what the grammar derives. -/
theorem refused_overfull : overfull.Valid ∧ (∀ r ∈ overfull.rules, r.action = none) ∧
    (∀ r ∈ overfull.rules, SymbolId.eoi ∉ r.clause ∧ SymbolId.epsilon ∉ r.clause) ∧
    ∃ t p, overfull.table = .ok t ∧ t.conflicts = [] ∧ overfull.parser = .ok p ∧
      overfull.Derives [2] [5, 7] ∧
      ¬ ∃ tree, p.parse [.ok ⟨5, "(", 1, 1⟩, .ok ⟨7, "y", 1, 1⟩] = .ok tree := by
  have hparse : ∀ n m, ∃ e, Parser.parse ⟨crowded n m, crowdedTable n m⟩
      [.ok ⟨5, "(", 1, 1⟩, .ok ⟨7, "y", 1, 1⟩] = .error e := by
    intro n m
    obtain ⟨fuel, hfuel⟩ := Nat.exists_eq_add_of_le' (Parser.four_le_stepLimit (crowded n m) 2)
    rw [Parser.parse]
    simp only [List.length_cons, List.length_nil]
    rw [hfuel]
    exact ⟨_, rfl⟩
  refine ⟨valid_crowded (by decide), ?_, fun r hr => ⟨fun h => ?_, fun h => ?_⟩, _, _,
    crowded_table wraps_overfull, rfl, parser_crowded wraps_overfull, crowded_derives _ _, ?_⟩
  · exact forall_mem_crowded rfl rfl rfl (fun _ => rfl) rfl
  · exact absurd (two_lt_of_mem_clause r hr _ h) (by decide)
  · exact absurd (two_lt_of_mem_clause r hr _ h) (by decide)
  · rintro ⟨tree, htree⟩
    obtain ⟨e, he⟩ := hparse 1048575 4092
    cases htree.symm.trans he

end Grammar

end ShiftReduce
