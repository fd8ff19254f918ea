import ShiftReduce.Proofs.Automaton.Sweep
import ShiftReduce.Proofs.Grammar.Sentence
/-!
# First sets of a grammar

What the first sets of the productions say, read in the grammar itself: a non-terminal is marked as
vanishing if and only if it derives the empty string, and a terminal is in its set if and only if it
derives a string with the terminal in front. Nothing is asked of the non-terminals; they may be
undefined, unproductive or out of reach, and defined through each other in any way.

Main statement: `Grammar.Valid.first_exact`.
-/

namespace ShiftReduce

namespace Grammar

variable {g : Grammar} {target t : SymbolId} {α β : List SymbolId}

/-! ## Derivations of symbols and of parts -/

lemma known_map_part (hα : ∀ s ∈ α, g.symbols.contains s = true) : g.Known (α.map g.part) := by
  intro part hpart
  obtain ⟨s, hs, rfl⟩ := List.mem_map.mp hpart
  rw [part_symbol]
  exact ⟨of_decide_eq_true (hα s hs), rfl⟩

/-- A derivation of symbols, read as a derivation of parts. -/
lemma Valid.derives_map_part (hg : g.Valid) (target : SymbolId) (h : g.Derives α β) :
    (g.productions target).Derives (α.map g.part) (β.map g.part) := by
  induction h with
  | refl => exact .refl
  | tail _ hstep ih =>
    refine ih.tail ?_
    cases hstep with
    | @expand before after r hr =>
      obtain ⟨p, hp⟩ := exists_productions_get?_of_rule target hr
      have hexpand := Productions.Rewrites.expand (before.map g.part) (after.map g.part) hp
      rw [List.map_append, List.map_cons, part_eq_nonterminal (hg.target_nonterminal r hr),
        List.map_append, List.map_append]
      exact hexpand

lemma Valid.nullable_map_part (hg : g.Valid) (ht : g.target = some target)
    (hα : ∀ s ∈ α, g.symbols.contains s = true) :
    (g.productions target).Nullable (α.map g.part) ↔ g.Derives α [] := by
  refine ⟨fun h => ?_, hg.derives_map_part target⟩
  have hderives := (hg.derives_of_parts ht h (known_map_part hα)).1
  rw [map_symbol_part] at hderives
  exact hderives

lemma Valid.begins_map_part (hg : g.Valid) (ht : g.target = some target)
    (hα : ∀ s ∈ α, g.symbols.contains s = true) :
    (g.productions target).Begins (α.map g.part) t ↔
      g.symbols.isTerminal t = true ∧ ∃ β, g.Derives α (t :: β) := by
  constructor
  · rintro ⟨γ, hγ⟩
    obtain ⟨hderives, hknown⟩ := hg.derives_of_parts ht hγ (known_map_part hα)
    rw [map_symbol_part] at hderives
    refine ⟨isTerminal_of_known fun part hpart => hknown part ?_, _, hderives⟩
    rw [List.mem_singleton.mp hpart]
    exact List.mem_cons_self
  · rintro ⟨hterminal, β, hβ⟩
    have hparts := hg.derives_map_part target hβ
    rw [List.map_cons, part_eq_terminal_of_isTerminal hterminal] at hparts
    exact ⟨_, hparts⟩

/-! ## Exactness -/

lemma symbol_lt_of_known {parts : List Part} (h : g.Known parts) :
    ∀ part ∈ parts, part.symbol < (g.productions target).width :=
  fun part hpart => (h part hpart).1

lemma Valid.nullable_ofParts (hg : g.Valid) (ht : g.target = some target)
    (hα : ∀ s ∈ α, g.symbols.contains s = true) :
    ((FirstSets.compute (g.productions target)).ofParts (α.map g.part)).nullable = true ↔
      g.Derives α [] := by
  rw [FirstSets.nullable_compute (hg.proper_productions ht)
    (symbol_lt_of_known (known_map_part hα)), hg.nullable_map_part ht hα]

lemma Valid.mem_ofParts (hg : g.Valid) (ht : g.target = some target)
    (hα : ∀ s ∈ α, g.symbols.contains s = true) :
    t ∈ ((FirstSets.compute (g.productions target)).ofParts (α.map g.part)).terminals ↔
      g.symbols.isTerminal t = true ∧ ∃ β, g.Derives α (t :: β) := by
  rw [FirstSets.mem_compute (hg.proper_productions ht)
    (symbol_lt_of_known (known_map_part hα)), hg.begins_map_part ht hα]

/-- The computation of first sets ends, in rounds as well as in place, and what it finds is exact:
for every non-terminal, and for every string of symbols in front of any lookaheads. -/
theorem Valid.first_exact (hg : g.Valid) (ht : g.target = some target) :
    let ps := g.productions target
    let f := FirstSets.compute ps
    (FirstSets.grow ps f = f ∧ FirstSets.sweep ps f = f ∧
      ∀ fuel, ps.width * (ps.width + 1) < fuel →
        untilStable (FirstSets.sweep ps) fuel (List.replicate ps.width FirstSet.none) = f) ∧
    (∀ s, g.symbols.isNonterminal s = true →
      ((f.get s).nullable = true ↔ g.Derives [s] []) ∧
      ∀ t, t ∈ (f.get s).terminals ↔
        g.symbols.isTerminal t = true ∧ ∃ β, g.Derives [s] (t :: β)) ∧
    ∀ α, (∀ s ∈ α, g.symbols.contains s = true) →
      ((f.ofParts (α.map g.part)).nullable = true ↔ g.Derives α []) ∧
      ∀ (found lookaheads : TerminalSet) (t : SymbolId),
        t ∈ found.union (f.ahead (α.map g.part) lookaheads) ↔
          t ∈ found ∨ (g.symbols.isTerminal t = true ∧ ∃ β, g.Derives α (t :: β)) ∨
            g.Derives α [] ∧ t ∈ lookaheads := by
  intro ps f
  have hps : ps.Proper target := hg.proper_productions ht
  refine ⟨⟨FirstSets.grow_compute hps, ?swept, fun fuel => FirstSets.untilStable_sweep hps⟩,
    ?single, ?string⟩
  case swept =>
    have hsweep := FirstSets.sweep_untilStable hps (Nat.lt_succ_self _)
    rw [FirstSets.untilStable_sweep hps (Nat.lt_succ_self _)] at hsweep
    exact hsweep
  case single =>
    intro s hs
    -- a non-terminal is a string of one symbol
    have hknown : ∀ u ∈ [s], g.symbols.contains u = true := by
      intro u hu
      rw [List.mem_singleton.mp hu]
      exact decide_eq_true (SymbolTable.lt_size_of_isNonterminal hs)
    have hget : f.ofParts ([s].map g.part) = f.get s := by
      rw [List.map_singleton, part_eq_nonterminal hs, FirstSets.ofParts_nonterminal]
    rw [← hget]
    exact ⟨hg.nullable_ofParts ht hknown, fun t => hg.mem_ofParts ht hknown⟩
  case string =>
    intro α hα
    refine ⟨hg.nullable_ofParts ht hα, fun found lookaheads t => ?_⟩
    rw [TerminalSet.mem_union, FirstSets.mem_ahead, hg.nullable_ofParts ht hα,
      hg.mem_ofParts ht hα]

/-- `Z → d`, `Z → X Y Z`, `Y → ε`, `Y → c`, `X → Y` and `X → a`; out of reach there is `U → U V`,
where no rule defines `V`. -/
def vanishing : Grammar where
  name := none
  symbols := ⟨SymbolTable.initial.entries ++
    [⟨.nonterminal, "Z"⟩, ⟨.nonterminal, "X"⟩, ⟨.nonterminal, "Y"⟩, ⟨.terminal, "a"⟩,
      ⟨.terminal, "c"⟩, ⟨.terminal, "d"⟩, ⟨.nonterminal, "U"⟩, ⟨.nonterminal, "V"⟩]⟩
  rules := [.plain 0 2 [7], .plain 1 2 [3, 4, 2], .plain 2 4 [1], .plain 3 4 [6], .plain 4 3 [4],
    .plain 5 3 [5], .plain 6 8 [8, 9]]
  levels := []
  target := some 2

/-- `X` vanishes by way of `Y` and `Z` does not, any of the three terminals can begin `Z`, and
nothing begins `U`. -/
theorem first_exact_vanishing : vanishing.Valid ∧ vanishing.target = some 2 ∧
    vanishing.Derives [3] [] ∧ ¬ vanishing.Derives [2] [] ∧
    (∀ t, (vanishing.symbols.isTerminal t = true ∧ ∃ β, vanishing.Derives [2] (t :: β)) ↔
      t = 5 ∨ t = 6 ∨ t = 7) ∧
    ∀ t, ¬ (vanishing.symbols.isTerminal t = true ∧ ∃ β, vanishing.Derives [8] (t :: β)) := by
  have hvalid : vanishing.Valid := ⟨⟨_, rfl⟩, rfl, by decide, by decide, by decide, rfl⟩
  have htarget : vanishing.target = some 2 := rfl
  obtain ⟨-, hsingle, -⟩ := hvalid.first_exact htarget
  have hX := (hsingle 3 rfl).1
  obtain ⟨hZ, hbegins⟩ := hsingle 2 rfl
  have hU := (hsingle 8 rfl).2
  have hsets : FirstSets.compute (vanishing.productions 2) =
      [.none, .none, ⟨⟨0b11100000⟩, false⟩, ⟨⟨0b1100000⟩, true⟩, ⟨⟨0b1000000⟩, true⟩, .none,
        .none, .none, .none, .none] := by decide +kernel
  simp only [hsets] at hX hZ hbegins hU
  refine ⟨hvalid, htarget, hX.mp rfl, fun h => absurd (hZ.mpr h) (by decide), fun t => ?_,
    fun t => ?_⟩
  · have hthree : (⟨0b11100000⟩ : TerminalSet) =
        (TerminalSet.singleton 5).union ((TerminalSet.singleton 6).union (.singleton 7)) := rfl
    rw [← hbegins t]
    show t ∈ (⟨0b11100000⟩ : TerminalSet) ↔ _
    rw [hthree]
    simp
  · rw [← hU t]
    exact TerminalSet.not_mem_empty

end Grammar

end ShiftReduce
