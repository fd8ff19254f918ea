import ShiftReduce.Proofs.Grammar.Denotation
import ShiftReduce.Proofs.Grammar.FragmentRules
import ShiftReduce.Proofs.Grammar.Level
/-!
# The grammar of a repetition

The fragment for a repetition of terminals has four rules, whatever the grammar has that it is
asked of: `start → s`, `s → v`, `s → s v` and `s → ε`. The grammar is ambiguous, since `v` is had
from the second rule as well as from the third one in front of the fourth. What the start symbol
derives are the rows of `v` all the same.

The four clauses are different strings, so that a rule is known by what a parser finds on its stack.

The last of the five productions is the one of `s → ε`. Its key is 4 times the stride, so that it
is the first one that does not fit if the row is long: at `2 ^ 30 - 2` symbols it is 0 again.

Main statements: `Grammar.Valid.repeats_extract`, `Grammar.Repeats.exists_repeated`,
`Grammar.Repeats.keysFit` and `Grammar.Repeats.remaining_ne_nil`.
-/

namespace ShiftReduce

namespace Grammar

variable {g g' : Grammar} {start s t : SymbolId} {v w : List SymbolId} {r r' : Rule}

/-- The rules of a repetition below a start symbol. -/
def repetitionRules (start s : SymbolId) (v : List SymbolId) : List Rule :=
  [{ Rule.plain 0 start [s] with name := some "start" }, .plain 1 s v, .plain 2 s (s :: v),
    .plain 3 s [SymbolId.epsilon]]

/-- The grammar accepts the repetition of a row of terminals. -/
structure Repeats (g : Grammar) (start s : SymbolId) (v : List SymbolId) : Prop where
  valid : g.Valid
  accepts : g.target = some start
  rules : g.rules = repetitionRules start s v
  levels : g.levels = []
  start_ne : start ≠ s
  ne_nil : v ≠ []
  terminal : ∀ t ∈ v, g.symbols.isTerminal t = true ∧ t ≠ SymbolId.eoi ∧ t ≠ SymbolId.epsilon

/-! ## The rules below a repetition -/

/-- If a symbol mentions no non-terminal but itself, only its own rules are below it. -/
lemma rulesBelow_eq_rulesOf (h : ∀ r ∈ g.rulesOf s, ∀ t ∈ r.clause,
    g.symbols.isNonterminal t = true → t = s) : g.rulesBelow s = g.rulesOf s := by
  have hreaches : ∀ t, g.Reaches s t → t = s := by
    intro t ht
    induction ht with
    | refl => rfl
    | tail _ hmentions ih =>
      obtain ⟨r, hr, htarget, hmem, hnonterminal⟩ := hmentions
      exact h r (mem_rulesOf.mpr ⟨hr, htarget.trans ih⟩) _ hmem hnonterminal
  refine List.filter_congr fun r _ => ?_
  rw [Bool.eq_iff_iff, List.contains_iff_mem, mem_reach_iff, beq_iff_eq]
  exact ⟨hreaches _, fun heq => heq ▸ .refl⟩

/-- The rules that a repetition of a row of terminals was given. -/
lemma DefinesBy.rulesOf_repetition (hg : g.Valid) (hne : v ≠ [])
    (h : g.DefinesBy g' (repetition true v g.symbols.size)) :
    g'.rulesOf g.symbols.size =
      [.plain g.rules.length g.symbols.size v,
        .plain (g.rules.length + 1) g.symbols.size (g.symbols.size :: v),
        .plain (g.rules.length + 2) g.symbols.size [SymbolId.epsilon]] := by
  rw [h.rulesOf_size hg]
  simp [repetition, Alternative.plain, Alternative.rule, List.mapIdx_cons, hne]

/-- The fragment for a repetition of terminals accepts that repetition and has no other rules. -/
lemma Valid.repeats_extract (hg : g.Valid) (hlevels : g.levels = []) (hne : v ≠ [])
    (hterminal : ∀ t ∈ v, g.symbols.isTerminal t = true ∧ t ≠ SymbolId.eoi ∧ t ≠ SymbolId.epsilon)
    (hg' : g'.Valid) (h : g.DefinesBy g' (repetition true v g.symbols.size)) :
    (g'.inheritLevels.extract g.symbols.size).Repeats g'.symbols.size g.symbols.size v := by
  obtain ⟨name, hname⟩ := h.symbols
  have hsize : g'.symbols.size = g.symbols.size + 1 := by
    rw [SymbolTable.size, hname, List.length_append, List.length_singleton]
    rfl
  have hs : g'.symbols.contains g.symbols.size = true := by
    rw [SymbolTable.contains, hsize]
    exact decide_eq_true (Nat.lt_succ_self _)
  have hterminal' : ∀ t ∈ v, g'.symbols.isTerminal t = true := fun t ht =>
    SymbolTable.isTerminal_of_prefix ⟨_, hname.symm⟩ (hterminal t ht).1
  have hrules := h.rulesOf_repetition hg hne
  have hinherited : g'.inheritLevels.rulesOf g.symbols.size = g'.rulesOf g.symbols.size := by
    rw [rulesOf_inheritLevels]
    refine (List.map_congr_left fun r hr => ?_).trans (List.map_id _)
    refine inherited_of_no_levels (h.levels.trans hlevels) ?_
    rw [hrules] at hr
    simp only [List.mem_cons, List.not_mem_nil, or_false] at hr
    rcases hr with rfl | rfl | rfl <;> rfl
  -- the clauses have terminals beside the repetition itself
  have hmentions : ∀ r ∈ g'.inheritLevels.rulesOf g.symbols.size, ∀ t ∈ r.clause,
      g'.symbols.isNonterminal t = true → t = g.symbols.size := by
    intro r hr t ht hnonterminal
    have hnot : t ∉ v := fun ht => SymbolTable.ne_of_kinds hnonterminal (hterminal' t ht) rfl
    rw [hinherited, hrules] at hr
    simp only [List.mem_cons, List.not_mem_nil, or_false] at hr
    rcases hr with rfl | rfl | rfl
    · exact absurd ht hnot
    · exact (List.mem_cons.mp ht).resolve_right hnot
    · exact absurd (List.mem_singleton.mp ht)
        (SymbolTable.ne_of_kinds hnonterminal hg'.isTerminal_epsilon)
  have hextracted := rules_extract g'.inheritLevels g.symbols.size
  rw [rulesBelow_eq_rulesOf hmentions, hinherited, hrules] at hextracted
  obtain ⟨fresh, hfresh⟩ := symbols_extract g'.inheritLevels g.symbols.size
  refine ⟨hg'.inheritLevels.extract hs, target_extract _ _, hextracted, h.levels.trans hlevels,
    ?_, hne, fun t ht => ⟨?_, (hterminal t ht).2⟩⟩
  · rw [hsize]
    exact Nat.succ_ne_self _
  · exact SymbolTable.isTerminal_of_prefix ⟨_, hfresh.symm⟩ (hterminal' t ht)

namespace Repeats

variable (h : g.Repeats start s v)

include h

/-! ## The four rules -/

lemma rule_cases (hr : r ∈ g.rules) : r = { Rule.plain 0 start [s] with name := some "start" } ∨
    r = .plain 1 s v ∨ r = .plain 2 s (s :: v) ∨ r = .plain 3 s [SymbolId.epsilon] := by
  rw [h.rules] at hr
  simpa [repetitionRules] using hr

lemma isNonterminal_start : g.symbols.isNonterminal start = true :=
  h.valid.isNonterminal_target h.accepts

lemma isNonterminal_repeated : g.symbols.isNonterminal s = true :=
  h.valid.target_nonterminal (.plain 1 s v) (by simp [h.rules, repetitionRules])

lemma notMem (hs : g.symbols.isNonterminal t = true) : t ∉ v := fun ht =>
  SymbolTable.ne_of_kinds hs (h.terminal t ht).1 rfl

/-- What a parser finds on its stack for the rules. -/
lemma map_symbols : g.rules.map Rule.symbols = [[s], v, s :: v, []] := by
  have hs := SymbolTable.ne_of_kinds h.isNonterminal_repeated h.valid.isTerminal_epsilon
  obtain ⟨t, u, rfl⟩ := List.exists_cons_of_ne_nil h.ne_nil
  have ht := (h.terminal t List.mem_cons_self).2.2
  rw [h.rules]
  simp [repetitionRules, Rule.plain, Rule.symbols, Rule.isEmpty, hs, ht]

lemma symbols_cases (hr : r ∈ g.rules) :
    r.symbols = [s] ∨ r.symbols = v ∨ r.symbols = s :: v ∨ r.symbols = [] := by
  have hmem : r.symbols ∈ g.rules.map Rule.symbols := List.mem_map_of_mem hr
  rw [h.map_symbols] at hmem
  simpa using hmem

/-- The start symbol stands in no clause. -/
lemma start_notMem (hr : r ∈ g.rules) : start ∉ r.symbols := by
  have hv := h.notMem h.isNonterminal_start
  rcases h.symbols_cases hr with hsymbols | hsymbols | hsymbols | hsymbols <;> rw [hsymbols]
  · exact fun hmem => h.start_ne (List.mem_singleton.mp hmem)
  · exact hv
  · exact fun hmem => (List.mem_cons.mp hmem).elim h.start_ne hv
  · exact List.not_mem_nil

/-- A rule is known by its symbols. -/
lemma eq_of_symbols_eq (hr : r ∈ g.rules) (hr' : r' ∈ g.rules) (heq : r.symbols = r'.symbols) :
    r = r' := by
  have hs := h.notMem h.isNonterminal_repeated
  have hnodup : (g.rules.map Rule.symbols).Nodup := by
    rw [h.map_symbols]
    obtain ⟨t, u, hv⟩ := List.exists_cons_of_ne_nil h.ne_nil
    rw [hv, List.mem_cons, not_or] at hs
    simp [hv, hs.1]
  exact List.inj_on_of_nodup_map hnodup hr hr' heq

lemma eoi_notMem (hr : r ∈ g.rules) : SymbolId.eoi ∉ r.clause := by
  have hs := (SymbolTable.ne_of_kinds h.isNonterminal_repeated h.valid.isTerminal_eoi).symm
  have hv : SymbolId.eoi ∉ v := fun hmem => (h.terminal _ hmem).2.1 rfl
  rcases h.rule_cases hr with rfl | rfl | rfl | rfl
  · simpa [Rule.plain] using hs
  · exact hv
  · simpa [Rule.plain] using ⟨hs, hv⟩
  · simp [Rule.plain, SymbolId.eoi, SymbolId.epsilon]

/-- No rule goes on behind the row, and none goes on with the end of input. -/
lemma symbols_ne (ht : t = SymbolId.eoi ∨ r.symbols = v ∨ r.symbols = s :: v) (hr' : r' ∈ g.rules)
    (rest : List SymbolId) : r'.symbols ≠ r.symbols ++ t :: rest := by
  intro heq
  have hlength : r'.symbols.length = r.symbols.length + (rest.length + 1) := by
    rw [heq, List.length_append, List.length_cons]
  rcases ht with rfl | hsymbols | hsymbols
  · exact h.eoi_notMem hr' (Rule.mem_clause (heq ▸ List.mem_append_right _ List.mem_cons_self))
  · have hpos : 0 < v.length := List.length_pos_iff.mpr h.ne_nil
    rw [hsymbols] at heq hlength
    rcases h.symbols_cases hr' with hsymbols' | hsymbols' | hsymbols' | hsymbols'
    · rw [hsymbols', List.length_singleton] at hlength
      omega
    · rw [hsymbols'] at hlength
      omega
    · -- the row would begin with the repetition
      obtain ⟨u, w, hv⟩ := List.exists_cons_of_ne_nil h.ne_nil
      rw [hsymbols', hv, List.cons_append, List.cons.injEq] at heq
      exact h.notMem h.isNonterminal_repeated (heq.1 ▸ hv ▸ List.mem_cons_self)
    · rw [hsymbols', List.length_nil] at hlength
      omega
  · have hle : r'.symbols.length ≤ v.length + 1 := by
      rcases h.symbols_cases hr' with hsymbols' | hsymbols' | hsymbols' | hsymbols' <;>
        simp [hsymbols']
    rw [hsymbols, List.length_cons] at hlength
    omega

/-- Nothing is set for any rule. -/
lemma plain (hr : r ∈ g.rules) : r.action = none ∧ r.inheritedLevel = none ∧ r.level = 0 ∧
    r.arbitration = .shift := by
  rcases h.rule_cases hr with rfl | rfl | rfl | rfl <;> exact ⟨rfl, rfl, rfl, rfl⟩

lemma inheritLevels_eq : g.inheritLevels = g :=
  inheritLevels_of_no_levels h.levels fun _ hr => (h.plain hr).2.1

/-- The end of input and the terminals of the row have columns of their own. -/
lemma column (ht : t = SymbolId.eoi ∨ t ∈ v) : t ≠ SymbolId.epsilon ∧ t < g.symbols.size := by
  rcases ht with rfl | ht
  · exact ⟨by decide, Nat.lt_of_lt_of_le (by decide) h.valid.two_le_size⟩
  · obtain ⟨hterminal, -, hne⟩ := h.terminal t ht
    exact ⟨hne, SymbolTable.lt_size_of_isTerminal hterminal⟩

/-! ## What is derived -/

lemma rulesOf_start : g.rulesOf start = [{ Rule.plain 0 start [s] with name := some "start" }] := by
  rw [rulesOf, h.rules]
  simp [repetitionRules, Rule.plain, Ne.symm h.start_ne]

lemma rulesOf_repeated :
    g.rulesOf s = [.plain 1 s v, .plain 2 s (s :: v), .plain 3 s [SymbolId.epsilon]] := by
  rw [rulesOf, h.rules]
  simp [repetitionRules, Rule.plain, h.start_ne]

lemma iterates : g.Iterates s v v true := by
  have hs := h.notMem h.isNonterminal_repeated
  refine ⟨?_, hs, hs⟩
  have hall := h.map_symbols
  rw [h.rules, repetitionRules, List.map_cons, List.cons.injEq] at hall
  rw [h.rulesOf_repeated]
  exact hall.2

/-- The rules of the repetition by their symbols. -/
lemma exists_rule (hw : w = v ∨ w = s :: v ∨ w = []) :
    ∃ r ∈ g.rules, r.target = s ∧ r.symbols = w := by
  obtain ⟨r, hr, hsymbols⟩ :=
    h.iterates.exists_rule_iff.mpr (hw.imp_right (Or.imp_right (And.intro rfl)))
  obtain ⟨hr, htarget⟩ := mem_rulesOf.mp hr
  exact ⟨r, hr, htarget, hsymbols⟩

/-- The start symbol has one rule. -/
lemma symbols_of_start (hr : r ∈ g.rules) (htarget : r.target = start) : r.symbols = [s] := by
  have hmem : r ∈ g.rulesOf start := mem_rulesOf.mpr ⟨hr, htarget⟩
  have hsymbols := h.map_symbols
  rw [h.rules, repetitionRules, List.map_cons, List.cons.injEq] at hsymbols
  rw [h.rulesOf_start] at hmem
  rw [List.mem_singleton.mp hmem]
  exact hsymbols.1

lemma exists_rule_start : ∃ top ∈ g.rules, top.target = start ∧ top.symbols = [s] := by
  obtain ⟨top, htop, htarget⟩ := h.valid.exists_rule_of_target h.accepts
  exact ⟨top, htop, htarget, h.symbols_of_start htop htarget⟩

/-- Only the start symbol and then the repetition are ever replaced. -/
lemma unfoldsTo_of_derives (hw : g.Derives [start] w) : w = [start] ∨ g.UnfoldsTo s w := by
  induction hw with
  | refl => exact .inl rfl
  | tail _ hstep ih =>
    refine .inr ?_
    cases hstep with
    | @expand before after r hr =>
      rcases ih with hone | hunfolds
      · obtain ⟨rfl, hone⟩ | ⟨-, hone⟩ := List.append_eq_singleton_iff.mp hone
        · obtain ⟨rfl, rfl⟩ := List.cons.inj hone
          rw [h.symbols_of_start hr rfl]
          exact .refl
        · cases hone
      · -- beside the repetition there are only terminals
        have hnot := h.notMem (h.valid.target_nonterminal r hr)
        have htarget : r.target = s :=
          (h.iterates.mem_of_unfoldsTo hunfolds
            (List.mem_append_right _ List.mem_cons_self)).resolve_right (not_or.mpr ⟨hnot, hnot⟩)
        have hstep := Unfolds.expand before after (mem_rulesOf.mpr ⟨hr, htarget⟩)
        exact hunfolds.tail (htarget ▸ hstep)

/-- What the start symbol derives over terminals are the rows. -/
lemma exists_repeated (hw : g.Derives [start] w)
    (hterminal : ∀ t ∈ w, g.symbols.isTerminal t = true) : ∃ n, w = repeated n v := by
  have hnot : ∀ t, g.symbols.isNonterminal t = true → t ∉ w := fun t ht hmem =>
    SymbolTable.ne_of_kinds ht (hterminal t hmem) rfl
  rcases h.unfoldsTo_of_derives hw with rfl | hunfolds
  · exact absurd List.mem_cons_self (hnot start h.isNonterminal_start)
  · exact (h.iterates.unfoldsTo_repeated_iff (hnot s h.isNonterminal_repeated)).mp hunfolds

/-! ## Keys -/

lemma productions_list : (g.productions start).list.toList =
    g.startProduction start :: g.rules.map g.production := by
  have htargets : g.targets = [start, s] := by
    rw [targets, h.rules]
    simp [repetitionRules, Rule.plain, Ne.symm h.start_ne]
  rw [Grammar.productions_list, htargets, List.flatMap_cons, List.flatMap_singleton, block, block,
    h.rulesOf_start, h.rulesOf_repeated, h.rules]
  rfl

/-- The lengths of the right-hand sides. -/
lemma map_length_rhs : (g.productions start).list.toList.map (fun prod => prod.rhs.length) =
    [1, 1, v.length, v.length + 1, 0] := by
  have hlength : ((fun prod : Production => prod.rhs.length) ∘ g.production) =
      List.length ∘ Rule.symbols := by
    funext r
    exact List.length_map _
  rw [h.productions_list, List.map_cons, List.map_map, hlength, ← List.map_map, h.map_symbols]
  rfl

lemma length_rhs {p : Nat} {prod : Production} (hp : (g.productions start).get? p = some prod) :
    [1, 1, v.length, v.length + 1, 0][p]? = some prod.rhs.length := by
  rw [← h.map_length_rhs, List.getElem?_map, Array.getElem?_toList, ← Productions.get?, hp,
    Option.map_some]

lemma stride_eq : (g.productions start).stride = v.length + 2 := by
  have hpos : 1 ≤ v.length := List.length_pos_iff.mpr h.ne_nil
  have hfold : (g.productions start).stride =
      ((g.productions start).list.toList.map fun prod => prod.rhs.length).foldl max 0 + 1 := by
    rw [List.foldl_map]
    rfl
  rw [hfold, h.map_length_rhs]
  simp only [List.foldl_cons, List.foldl_nil]
  omega

/-- The greatest key is that of the production of `s → ε`, which comes last. -/
lemma keysFit (hfit : 4 * (v.length + 2) < wordRange) : g.KeysFit := by
  intro target htarget p prod hp
  obtain rfl : target = start := Option.some.inj (htarget.symm.trans h.accepts)
  have hlength := h.length_rhs hp
  rw [h.stride_eq]
  generalize prod.rhs.length = length at hlength ⊢
  match p, hlength with
  | 0, hlength | 1, hlength | 2, hlength | 3, hlength | 4, hlength =>
    cases hlength
    omega

/-- If the row is so long that the key of `s → ε` wraps around to 0, then what begins is one of
the other productions, and something is after the dot. -/
lemma remaining_ne_nil (hwrap : 4 * (v.length + 2) = wordRange) (p : Nat) :
    (g.productions start).basis.remaining ((g.productions start).basis.key p 0) ≠ [] := by
  have hbasis : (g.productions start).basis.stride = v.length + 2 := h.stride_eq
  have hkey : (g.productions start).basis.key p 0 = p % 4 * (v.length + 2) := by
    rw [Basis.key, hbasis, Nat.add_zero, ← hwrap, Nat.mul_mod_mul_right]
  have hlt : p % 4 < 4 := Nat.mod_lt p (by decide)
  have hlength : (g.productions start).list.toList.length = 5 := by
    rw [← List.length_map (fun prod : Production => prod.rhs.length), h.map_length_rhs]
    rfl
  obtain ⟨prod, hprod⟩ : ∃ prod, (g.productions start).get? (p % 4) = some prod := by
    rw [Productions.get?, ← Array.getElem?_toList]
    exact ⟨_, List.getElem?_eq_getElem (by rw [hlength]; exact Nat.lt_succ_of_lt hlt)⟩
  have hrhs := h.length_rhs hprod
  have hproduction : (g.productions start).basis.productionOf (p % 4 * (v.length + 2)) =
      p % 4 := by
    rw [Basis.productionOf, hbasis, Nat.mul_div_cancel _ (Nat.succ_pos _)]
  have hdot : (g.productions start).basis.dotOf (p % 4 * (v.length + 2)) = 0 := by
    rw [Basis.dotOf, hbasis, Nat.mul_mod_left]
  rw [hkey, Basis.remaining, Basis.production, hproduction, hdot, Productions.basis_productions,
    hprod, Option.getD_some, List.drop_zero, ← List.length_pos_iff]
  -- of the five productions only the last one has nothing
  have hpos : 0 < v.length := List.length_pos_iff.mpr h.ne_nil
  generalize prod.rhs.length = length at hrhs ⊢
  have hcases : p % 4 = 0 ∨ p % 4 = 1 ∨ p % 4 = 2 ∨ p % 4 = 3 := by omega
  rcases hcases with hp | hp | hp | hp <;> rw [hp] at hrhs <;> cases hrhs <;> omega

end Repeats

end Grammar

end ShiftReduce
