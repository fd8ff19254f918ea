import ShiftReduce.Proofs.Grammar.Encode
import ShiftReduce.Proofs.Grammar.Operation
/-!
# What a fingerprint stands for

The string that is hashed for a fingerprint is read back in one way only, so two grammars of one
string have the same symbols, the same accepted symbol, the same rules but for names, callbacks and
the source of a level, and the same declared levels. The converse needs the declared levels in
order: as a list they are part of the string, while what a grammar says of them is a map. Every
operation keeps them ascending by symbol, in whatever order they are declared.

Main statement: `Grammar.encode_eq_iff_sameContent`.
-/

namespace ShiftReduce

namespace Grammar

/-! ## The declared levels -/

/-- The declared levels stand in the order of their symbols, none twice. -/
def LevelsAscend (levels : List (SymbolId × Nat)) : Prop :=
  levels.Pairwise fun p q => p.1 < q.1

section Levels

variable {levels levels' : List (SymbolId × Nat)} {s : SymbolId} {p : SymbolId × Nat}

lemma fst_of_mem_putLevel {level : Nat} (h : p ∈ putLevel s level levels) :
    p.1 = s ∨ p ∈ levels := by
  induction levels with
  | nil =>
    rw [putLevel, List.mem_singleton] at h
    exact .inl (congrArg Prod.fst h)
  | cons q rest ih =>
    rw [putLevel] at h
    split_ifs at h with hlt heq
    · rcases List.mem_cons.mp h with rfl | h
      · exact .inl rfl
      · exact .inr h
    · rcases List.mem_cons.mp h with rfl | h
      · exact .inl rfl
      · exact .inr (List.mem_cons_of_mem _ h)
    · rcases List.mem_cons.mp h with rfl | h
      · exact .inr List.mem_cons_self
      · exact (ih h).imp_right (List.mem_cons_of_mem _)

/-- Setting a level keeps the order. -/
lemma LevelsAscend.putLevel (h : LevelsAscend levels) (s : SymbolId) (level : Nat) :
    LevelsAscend (putLevel s level levels) := by
  induction levels with
  | nil => exact List.pairwise_singleton _ _
  | cons q rest ih =>
    obtain ⟨hq, hrest⟩ := List.pairwise_cons.mp h
    rw [Grammar.putLevel]
    split_ifs with hlt heq
    · -- in front of all the others
      refine List.pairwise_cons.mpr ⟨fun p hp => ?_, h⟩
      rcases List.mem_cons.mp hp with rfl | hp
      · exact hlt
      · exact hlt.trans (hq p hp)
    · -- in the place of the level the symbol had
      exact List.pairwise_cons.mpr ⟨heq ▸ hq, hrest⟩
    · refine List.pairwise_cons.mpr ⟨fun p hp => ?_, ih hrest⟩
      rcases fst_of_mem_putLevel hp with hps | hp
      · rw [hps]
        exact lt_of_le_of_ne (not_lt.mp hlt) (Ne.symm heq)
      · exact hq p hp

lemma LevelsAscend.foldl_putLevel (h : LevelsAscend levels) (level : Nat)
    (symbols : List SymbolId) :
    LevelsAscend (symbols.foldl (fun levels s => Grammar.putLevel s level levels) levels) := by
  induction symbols generalizing levels with
  | nil => exact h
  | cons s symbols ih => exact ih (h.putLevel s level)

lemma lookup_eq_none_of_lt (h : ∀ p ∈ levels, s < p.1) : levels.lookup s = none := by
  rw [List.lookup_eq_none_iff]
  intro p hp
  simpa using (h p hp).ne

/-- Levels in order are given by the map that looks them up. -/
lemma LevelsAscend.eq_of_lookup (h : LevelsAscend levels) (h' : LevelsAscend levels')
    (heq : ∀ s, levels.lookup s = levels'.lookup s) : levels = levels' := by
  induction levels generalizing levels' with
  | nil =>
    cases levels' with
    | nil => rfl
    | cons q rest' =>
      obtain ⟨s, level⟩ := q
      simpa [List.lookup_cons] using heq s
  | cons p rest ih =>
    obtain ⟨s, level⟩ := p
    cases levels' with
    | nil => simpa [List.lookup_cons] using heq s
    | cons q rest' =>
      obtain ⟨s', level'⟩ := q
      obtain ⟨hp, hrest⟩ := List.pairwise_cons.mp h
      obtain ⟨hq, hrest'⟩ := List.pairwise_cons.mp h'
      -- the smaller of the two first symbols is looked up in only one of the lists
      have hfirst : s = s' := by
        rcases lt_trichotomy s s' with hlt | hfirst | hlt
        · have hnone : ((s', level') :: rest').lookup s = none :=
            lookup_eq_none_of_lt (List.forall_mem_cons.mpr ⟨hlt, fun r hr => hlt.trans (hq r hr)⟩)
          simpa [List.lookup_cons] using (heq s).trans hnone
        · exact hfirst
        · have hnone : ((s, level) :: rest).lookup s' = none :=
            lookup_eq_none_of_lt (List.forall_mem_cons.mpr ⟨hlt, fun r hr => hlt.trans (hp r hr)⟩)
          simpa [List.lookup_cons] using (heq s').symm.trans hnone
      subst hfirst
      have hlevel : level = level' := by
        simpa [List.lookup_cons] using heq s
      have hrests : ∀ t, rest.lookup t = rest'.lookup t := by
        intro t
        by_cases ht : t = s
        · rw [ht, lookup_eq_none_of_lt hp, lookup_eq_none_of_lt hq]
        · simpa [List.lookup_cons, beq_eq_false_iff_ne.mpr ht] using heq t
      rw [ih hrest hrest' hrests, hlevel]

end Levels

variable {g g' : Grammar}

lemma levels_of_addRule {target : SymbolId} {clause : List SymbolId} {settings : List RuleSetting}
    {id : RuleId} (h : g.addRule target clause settings = .ok (id, g')) : g'.levels = g.levels := by
  rw [addRule] at h
  split at h
  · split at h
    · cases h
    · cases h
      rfl
  · cases h

lemma levels_addAlternatives (g : Grammar) (target : SymbolId) (l : List Alternative) :
    (g.addAlternatives target l).1.levels = g.levels := by
  induction l generalizing g with
  | nil => rfl
  | cons a l ih =>
    rw [addAlternatives]
    split
    · rfl
    · next hadd => rw [ih, levels_of_addRule hadd]

lemma levels_define (g : Grammar) (name : String) (alternatives : SymbolId → List Alternative) :
    (g.define name alternatives).1.levels = g.levels := by
  rw [define]
  exact levels_addAlternatives _ _ _

lemma levels_of_acceptRule {id : RuleId} (h : g.acceptRule id = .ok g') :
    g'.levels = g.levels := by
  rw [acceptRule] at h
  split at h
  · cases h
  · dsimp only at h
    split at h
    · cases h
      rfl
    · cases h

lemma levels_fragment (g : Grammar) (s : SymbolId) : (g.fragment s).1.levels = g.levels := by
  rw [fragment]
  split
  · rfl
  · split
    · next haccept => exact (levels_of_acceptRule haccept).trans rfl
    · rfl
  · rfl

/-- A call leaves the levels in order. The name of a grammar can be changed at any time and is not
looked at. -/
lemma LevelsAscend.perform (h : LevelsAscend g.levels) (op : Operation) :
    LevelsAscend (g.perform op).1.levels := by
  cases op with
  | rename | terminal | nonterminal | inheritLevels => exact h
  | declareLevel level symbols => exact h.foldl_putLevel level symbols
  | addRule target clause settings =>
    rw [Grammar.perform]
    cases hadd : g.addRule target clause settings with
    | error e => exact h
    | ok added => exact levels_of_addRule hadd ▸ h
  | oneOf | optional | oneOrMore | zeroOrMore | listOf =>
    rw [Grammar.perform, fst_withoutSymbol]
    exact (levels_define g _ _).symm ▸ h
  | acceptRule id =>
    rw [Grammar.perform]
    cases haccept : g.acceptRule id with
    | error e => exact h
    | ok g' => exact levels_of_acceptRule haccept ▸ h
  | fragment s keep =>
    have hfragment : LevelsAscend (g.fragment s).1.levels := (levels_fragment g s).symm ▸ h
    rw [Grammar.perform]
    split
    · exact hfragment
    · next f hf =>
      cases keep with
      | false => exact hfragment
      | true =>
        cases f with
        | whole => exact hfragment
        | part g' =>
          -- a fragment of its own has the levels of the grammar it is taken from
          rw [fragment_part hf]
          exact h

lemma LevelsAscend.run (h : LevelsAscend g.levels) (ops : List Operation) :
    LevelsAscend (g.run ops).levels := by
  induction ops generalizing g with
  | nil => exact h
  | cons op ops ih => exact ih (h.perform op)

/-! ## The content of a grammar -/

/-- Two grammars say the same about their symbols, the accepted symbol, the rules with the levels in
force and the arbitrations, and the declared level of every symbol. -/
structure SameContent (g g' : Grammar) : Prop where
  symbols : g.symbols.entries = g'.symbols.entries
  target : g.target = g'.target
  rules : (g.rules.map fun r => (r.id, r.target, r.clause, r.level, r.arbitration)) =
    g'.rules.map fun r => (r.id, r.target, r.clause, r.level, r.arbitration)
  levels : ∀ s, g.level? s = g'.level? s

/-- Grammars of one string have one content. -/
lemma sameContent_of_encode_eq (h : g.encode = g'.encode) : g.SameContent g' := by
  have hbare := bare_eq_of_encode_eq h
  simp only [mapRules, Grammar.mk.injEq, true_and] at hbare
  obtain ⟨hsymbols, hrules, hlevels, htarget⟩ := hbare
  have hread := congrArg
    (List.map fun r : Rule => (r.id, r.target, r.clause, r.level, r.arbitration)) hrules
  rw [List.map_map, List.map_map] at hread
  exact
    { symbols := congrArg SymbolTable.entries hsymbols.symm
      target := htarget.symm
      rules := hread.symm
      levels := fun s => by rw [level?, level?, hlevels] }

/-- Grammars of one content are written in the same way. -/
lemma SameContent.encode_eq (h : g.SameContent g') (hg : LevelsAscend g.levels)
    (hg' : LevelsAscend g'.levels) : g.encode = g'.encode := by
  have hlevels : g.levels = g'.levels := hg.eq_of_lookup hg' h.levels
  have hlength : g.rules.length = g'.rules.length := by
    simpa using congrArg List.length h.rules
  have hrules : g.rules.flatMap encodeRule = g'.rules.flatMap encodeRule := by
    have hwritten := congrArg (List.flatMap fun x : RuleId × SymbolId × List SymbolId × Nat ×
        Arbitration => encodeRule ⟨x.1, x.2.1, x.2.2.1, none, none, some x.2.2.2.1, none,
          x.2.2.2.2⟩) h.rules
    rw [List.flatMap_map, List.flatMap_map] at hwritten
    exact hwritten
  rw [encode, encode, SymbolTable.size, SymbolTable.size, h.symbols, h.target, hlength, hrules,
    hlevels]

/-- The strings hashed for two grammars are equal just when the grammars have the same content, and
then their tables are equal, or the errors if there are none. -/
theorem encode_eq_iff_sameContent (hg : LevelsAscend g.levels) (hg' : LevelsAscend g'.levels) :
    (g.encode = g'.encode ↔ g.SameContent g') ∧ (g.encode = g'.encode → g.table = g'.table) :=
  ⟨⟨sameContent_of_encode_eq, fun h => h.encode_eq hg hg'⟩, table_eq_of_encode_eq⟩

/-- `S → S + S | x` with a level for `+` and one for `x`, declared in one order or the other, and
with the level of `+` given to the rule or left to be inherited. -/
def graded (explicit : Bool) : Grammar :=
  let symbols : SymbolTable := ⟨SymbolTable.initial.entries ++
    [⟨.nonterminal, "S"⟩, ⟨.terminal, "+"⟩, ⟨.terminal, "x"⟩]⟩
  let rule := Rule.plain 0 2 [2, 3, 2]
  let other := Rule.plain 1 2 [4]
  if explicit then
    { empty (some "sums") with
      symbols, target := some 2
      rules := [{ rule with name := some "sum", explicitLevel := some 5 },
        { other with action := some id, inheritedLevel := some 3 }] }.declareLevel 3 [4]
      |>.declareLevel 5 [3]
  else
    (({ empty none with symbols, target := some 2, rules := [rule, other] }.declareLevel 5 [3]
      |>.declareLevel 3 [4])).inheritLevels

/-- Of the two ways to write `graded` neither the string nor the table tells. -/
theorem encode_graded :
    LevelsAscend (graded true).levels ∧ LevelsAscend (graded false).levels ∧
      (graded true).encode = (graded false).encode ∧
      (graded true).table = (graded false).table := by
  have hg : LevelsAscend (graded true).levels := by
    simp [LevelsAscend, graded, declareLevel, putLevel, empty]
  have hg' : LevelsAscend (graded false).levels := by
    simp [LevelsAscend, graded, declareLevel, putLevel, empty, inheritLevels]
  have hcontent : (graded true).SameContent (graded false) := ⟨rfl, rfl, rfl, fun _ => rfl⟩
  obtain ⟨hiff, htable⟩ := encode_eq_iff_sameContent hg hg'
  exact ⟨hg, hg', hiff.mpr hcontent, htable (hiff.mpr hcontent)⟩

end Grammar

end ShiftReduce
