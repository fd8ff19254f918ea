import ShiftReduce.Proofs.Automaton.Scan
import ShiftReduce.Proofs.Grammar.Level
/-!
# Sentences

A sentence is a string of terminals that the accepted symbol derives. Where every non-terminal in
use derives some string of terminals, whatever the accepted symbol derives can be derived further to
a sentence.
-/

namespace ShiftReduce

namespace Productions

variable {ps : Productions} {target s : SymbolId} {α β : List Part}

/-- The non-terminals of what the accepted symbol derives are in use. -/
lemma inUse_of_derives (hps : ps.Proper target) (h : ps.Derives [.nonterminal target] β)
    (hs : .nonterminal s ∈ β) : ps.InUse s := by
  induction h generalizing s with
  | refl =>
    rw [List.mem_singleton, Part.nonterminal.injEq] at hs
    exact hs ▸ .start hps.start List.mem_cons_self
  | tail _ hstep ih =>
    cases hstep with
    | expand before after hp =>
      simp only [List.mem_append, List.mem_cons] at ih hs
      rcases hs with (hs | hs) | hs
      · exact ih (.inl hs)
      · exact .mentioned (ih (.inr (.inl rfl))) hp hs
      · exact ih (.inr (.inr hs))

/-- A string of productive parts derives a string of terminals. -/
lemma exists_terminals (h : ∀ s, .nonterminal s ∈ α → ps.Productive s) :
    ∃ w : List SymbolId, ps.Derives α (w.map .terminal) := by
  induction α with
  | nil => exact ⟨[], .refl⟩
  | cons part α ih =>
    obtain ⟨w, hw⟩ := ih fun s hs => h s (List.mem_cons_of_mem _ hs)
    cases part with
    | terminal t =>
      have hhead : ps.Derives [.terminal t] [.terminal t] := .refl
      exact ⟨t :: w, hhead.append hw⟩
    | nonterminal s =>
      obtain ⟨v, hv⟩ := h s List.mem_cons_self
      exact ⟨v ++ w, by rw [List.map_append]; exact hv.append hw⟩

end Productions

namespace Grammar

/-- A string of terminals that the accepted symbol derives. -/
def IsSentence (g : Grammar) (w : List SymbolId) : Prop :=
  ∃ target, g.target = some target ∧ g.Derives [target] w ∧
    ∀ s ∈ w, g.symbols.isTerminal s = true

variable {g : Grammar} {target s : SymbolId} {w : List SymbolId} {α β : List Part}
  {f : Rule → Rule}

lemma isSentence_mapRules (hf : Rule.KeepsShape f) :
    (g.mapRules f).IsSentence w ↔ g.IsSentence w := by
  have hderives : ∀ s, (g.mapRules f).Derives [s] w ↔ g.Derives [s] w := fun s =>
    derives_mapRules hf
  simp only [IsSentence, hderives]
  rfl

/-- A terminal of a sentence stands in some clause. -/
lemma Valid.exists_rule_of_mem (hg : g.Valid) (hw : g.IsSentence w) (hs : s ∈ w) :
    ∃ r ∈ g.rules, s ∈ r.symbols := by
  obtain ⟨target, htarget, hderives, hterminal⟩ := hw
  have hmem : s = target ∨ ∃ r ∈ g.rules, s ∈ r.symbols := by
    have hkept : ∀ {α : List SymbolId}, g.Derives [target] α → s ∈ α →
        s = target ∨ ∃ r ∈ g.rules, s ∈ r.symbols := by
      intro α hα hs
      induction hα with
      | refl => exact .inl (List.mem_singleton.mp hs)
      | tail _ hstep ih =>
        cases hstep with
        | expand before after hr =>
          simp only [List.mem_append, List.mem_cons] at ih hs
          rcases hs with (hs | hs) | hs
          · exact ih (.inl hs)
          · exact .inr ⟨_, hr, hs⟩
          · exact ih (.inr (.inr hs))
    exact hkept hderives hs
  -- the accepted symbol is no terminal
  exact hmem.resolve_left
    (SymbolTable.ne_of_kinds (hg.isNonterminal_target htarget) (hterminal s hs)).symm

/-- The parts are those of symbols of the grammar. -/
def Known (g : Grammar) (α : List Part) : Prop :=
  ∀ part ∈ α, part.symbol < g.symbols.size ∧ g.part part.symbol = part

/-- A derivation of parts, read as a derivation of symbols. -/
lemma Valid.derives_of_parts (hg : g.Valid) (ht : g.target = some target)
    (h : (g.productions target).Derives α β) (hα : g.Known α) :
    g.Derives (α.map Part.symbol) (β.map Part.symbol) ∧ g.Known β := by
  have hps := hg.proper_productions ht
  induction h with
  | refl => exact ⟨.refl, hα⟩
  | tail _ hstep ih =>
    obtain ⟨hderives, hknown⟩ := ih
    cases hstep with
    | @expand before after p prod hp =>
      have hlhs := (hknown (.nonterminal prod.lhs) (by simp)).1
      -- the left-hand side of production 0 is no symbol of the grammar
      have hne : p ≠ 0 := by
        rintro rfl
        rw [hps.start, Option.some.injEq] at hp
        subst hp
        exact absurd hlhs (Nat.lt_irrefl _)
      obtain ⟨r, hr, rfl⟩ := exists_rule_of_productions_get? hp hne
      have hrhs : (g.production r).rhs.map Part.symbol = r.symbols := g.map_symbol_part r.symbols
      refine ⟨hderives.tail ?_, fun part hpart => ?_⟩
      · have hstep := Rewrites.expand (before.map Part.symbol) (after.map Part.symbol) hr
        rw [← hrhs] at hstep
        rw [List.map_append, List.map_append, List.map_append, List.map_cons]
        exact hstep
      · rcases List.mem_append.mp hpart with hpart | hpart
        · rcases List.mem_append.mp hpart with hpart | hpart
          · exact hknown part (List.mem_append_left _ hpart)
          refine ⟨hps.symbol_lt hp part hpart, ?_⟩
          obtain ⟨s, -, rfl⟩ := List.mem_map.mp hpart
          rw [part_symbol]
        · exact hknown part (List.mem_append_right _ (List.mem_cons_of_mem _ hpart))

lemma isTerminal_of_known (h : g.Known [.terminal s]) : g.symbols.isTerminal s = true := by
  obtain ⟨hlt, hpart⟩ := h _ List.mem_cons_self
  refine SymbolTable.isTerminal_of_contains (decide_eq_true hlt) ?_
  by_contra hne
  rw [Bool.not_eq_false] at hne
  cases (part_eq_nonterminal hne).symm.trans hpart

/-- If every non-terminal in use is productive, a stack with an item on it can be continued to a
sentence. -/
lemma Valid.exists_sentence (hg : g.Valid) (ht : g.target = some target)
    (hproductive : ∀ s, (g.productions target).InUse s → (g.productions target).Productive s)
    {labels : List SymbolId} {w : List SymbolId}
    (hcore : ((g.productions target).scan (labels.map g.part)).core.Nonempty)
    (hw : ∀ s ∈ w, g.symbols.isTerminal s = true) (hlabels : g.Derives labels.reverse w) :
    ∃ w', g.IsSentence (w ++ w') := by
  have hps := hg.proper_productions ht
  have hnonterminal := hg.isNonterminal_target ht
  obtain ⟨i, hi⟩ := hcore
  obtain ⟨ω, hω⟩ := Productions.exists_derives_of_mem_scan hps hi
  rw [List.append_assoc] at hω
  have hall : ∀ s, .nonterminal s ∈ (g.productions target).rest i ++ ω →
      (g.productions target).Productive s := fun s hs =>
    hproductive s (Productions.inUse_of_derives hps hω (List.mem_append_right _ hs))
  obtain ⟨w', hw'⟩ := Productions.exists_terminals hall
  have hparts := hω.trans (Productions.Derives.append .refl hw')
  obtain ⟨hderives, hknown⟩ := hg.derives_of_parts ht hparts fun part hpart => by
    rw [List.mem_singleton.mp hpart]
    exact ⟨SymbolTable.lt_size_of_isNonterminal hnonterminal, part_eq_nonterminal hnonterminal⟩
  have hsymbols : ((labels.map g.part).reverse ++ w'.map Part.terminal).map Part.symbol =
      labels.reverse ++ w' := by
    rw [List.map_append, ← List.map_reverse, g.map_symbol_part, List.map_map]
    exact congrArg (labels.reverse ++ ·) (List.map_id w')
  rw [hsymbols] at hderives
  refine ⟨w', target, ht, hderives.trans (hlabels.append .refl), fun s hs => ?_⟩
  rcases List.mem_append.mp hs with hs | hs
  · exact hw s hs
  · refine isTerminal_of_known fun part hpart => hknown part ?_
    rw [List.mem_singleton.mp hpart]
    exact List.mem_append_right _ (List.mem_map_of_mem hs)

end Grammar

end ShiftReduce
