import ShiftReduce.Proofs.Grammar.Derivation
import ShiftReduce.Proofs.Grammar.Shorthand
/-!
# The languages of the shorthands

What a shorthand adds to a grammar are rules of a fresh non-terminal. No clause that was there can
mention it, so that a string of symbols that were there derives exactly what it derived before.

Over symbols other than itself the fresh non-terminal unfolds to what its name says: one of the
symbols, the symbols in a row or nothing, or the row repeated. Where no rule mentions the
non-terminal, one of its rules is applied and that is all; a repetition is a row of steps behind a
base, where base and step are one and the same string.

Main statements: `Grammar.DefinesBy.conservative`, `Grammar.Valid.denotes_oneOf`,
`Grammar.Valid.denotes_optional`, `Grammar.Valid.denotes_oneOrMore`,
`Grammar.Valid.denotes_zeroOrMore` and `Grammar.Valid.denotes_listOf`.
-/

namespace ShiftReduce

namespace Grammar

variable {g g' : Grammar} {s : SymbolId} {v α β : List SymbolId} {alternatives : List Alternative}

/-! ## What there was -/

/-- The second grammar has the rules of a fresh non-terminal beside those of the first one. Symbols,
rules and levels are as they were, and a string of known symbols derives what it derived. -/
structure Conservative (g g' : Grammar) (s : SymbolId) : Prop where
  fresh : g.symbols.contains s = false
  symbols : ∃ name, g'.symbols.entries = g.symbols.entries ++ [⟨.nonterminal, name⟩]
  nonterminal : g'.symbols.isNonterminal s = true
  rules : ∃ added, g'.rules = g.rules ++ added ∧ ∀ r ∈ added, r.target = s
  levels : g'.levels = g.levels
  derives_iff : ∀ α β, (∀ t ∈ α, g.symbols.contains t = true) →
    (g'.Derives α β ↔ g.Derives α β)

/-- More rules derive no less. -/
lemma Derives.of_subset (hrules : g.rules ⊆ g'.rules) (h : g.Derives α β) : g'.Derives α β := by
  refine Relation.ReflTransGen.lift (fun γ => γ) (fun γ δ hstep => ?_) _ _ h
  cases hstep with
  | expand before after hr => exact .expand before after (hrules hr)

/-- The fresh non-terminal does not come into what is derived from other symbols. -/
lemma derives_of_added (hg : g.Valid) {added : List Rule} (hrules : g'.rules = g.rules ++ added)
    (hadded : ∀ r ∈ added, g.symbols.contains r.target = false)
    (hα : ∀ t ∈ α, g.symbols.contains t = true) (h : g'.Derives α β) :
    g.Derives α β ∧ ∀ t ∈ β, g.symbols.contains t = true := by
  induction h with
  | refl => exact ⟨.refl, hα⟩
  | tail _ hstep ih =>
    obtain ⟨hderives, hknown⟩ := ih
    cases hstep with
    | @expand before after r hr =>
      have htarget : g.symbols.contains r.target = true :=
        hknown _ (List.mem_append_right _ List.mem_cons_self)
      rw [hrules, List.mem_append] at hr
      have hr : r ∈ g.rules := hr.resolve_right fun hmem => by
        rw [hadded r hmem] at htarget
        cases htarget
      refine ⟨hderives.tail (.expand before after hr), fun t ht => ?_⟩
      simp only [List.mem_append] at ht
      rcases ht with (ht | ht) | ht
      · exact hknown t (List.mem_append_left _ ht)
      · exact hg.clause_known r hr t (Rule.mem_clause ht)
      · exact hknown t (List.mem_append_right _ (List.mem_cons_of_mem _ ht))

lemma DefinesBy.conservative (hg : g.Valid) (h : g.DefinesBy g' alternatives) :
    g.Conservative g' g.symbols.size := by
  have hfresh : g.symbols.contains g.symbols.size = false :=
    decide_eq_false (Nat.lt_irrefl g.symbols.size)
  have htarget : ∀ r ∈ alternatives.mapIdx fun i a => a.rule (g.rules.length + i) g.symbols.size,
      r.target = g.symbols.size := by
    intro r hr
    obtain ⟨i, hi, rfl⟩ := List.mem_mapIdx.mp hr
    exact Alternative.rule_target _ _ _
  refine ⟨hfresh, h.symbols, ?_, ⟨_, h.rules, htarget⟩, h.levels,
    fun α β hα => ⟨fun hderives => ?_, ?_⟩⟩
  · obtain ⟨name, hname⟩ := h.symbols
    simp [SymbolTable.isNonterminal, SymbolTable.kind?, SymbolTable.get?, SymbolTable.size, hname]
  · exact (derives_of_added hg h.rules (fun r hr => htarget r hr ▸ hfresh) hα hderives).1
  · exact Derives.of_subset (h.rules ▸ List.subset_append_left _ _)

/-! ## What is new -/

/-- A call of a shorthand succeeds, changes nothing that there was, and returns a non-terminal that
unfolds to these strings of other symbols by its own rules. -/
def Denotes (g : Grammar) (call : Grammar × Except GrammarError SymbolId)
    (language : List SymbolId → Prop) : Prop :=
  ∃ g' s, call = (g', .ok s) ∧ g.Conservative g' s ∧
    ∀ α, s ∉ α → (g'.UnfoldsTo s α ↔ language α)

/-- If no rule of a symbol mentions it, the symbol unfolds to the symbols of its rules. -/
lemma unfoldsTo_iff_of_notMem (h : ∀ r ∈ g.rulesOf s, s ∉ r.symbols) (hs : s ∉ α) :
    g.UnfoldsTo s α ↔ α ∈ (g.rulesOf s).map Rule.symbols := by
  rw [List.mem_map]
  constructor
  · intro hα
    have hform : α = [s] ∨ ∃ r ∈ g.rulesOf s, r.symbols = α := by
      clear hs
      induction hα with
      | refl => exact .inl rfl
      | tail _ hstep ih =>
        cases hstep with
        | @expand before after r hr =>
          rcases ih with hone | ⟨r', hr', hsymbols⟩
          · obtain ⟨rfl, hone⟩ | ⟨-, hone⟩ := List.append_eq_singleton_iff.mp hone
            · cases hone
              exact .inr ⟨r, hr, by simp⟩
            · cases hone
          · exact absurd (hsymbols ▸ List.mem_append_right _ List.mem_cons_self) (h r' hr')
    exact hform.resolve_left fun hone => hs (hone ▸ List.mem_singleton_self s)
  · rintro ⟨r, hr, rfl⟩
    have hstep := Unfolds.expand [] [] hr
    rw [List.nil_append, List.append_nil, List.nil_append] at hstep
    exact .single hstep

/-- The symbols of what is unfolded. -/
lemma Iterates.mem_of_unfoldsTo {base step : List SymbolId} {allowEmpty : Bool} {t : SymbolId}
    (h : g.Iterates s base step allowEmpty) (hα : g.UnfoldsTo s α) (ht : t ∈ α) :
    t = s ∨ t ∈ base ∨ t ∈ step := by
  have hsteps : ∀ n, t ∈ repeated n step → t ∈ step := fun n hmem =>
    by_contra fun hnot => notMem_repeated hnot n hmem
  cases h.form_of_unfoldsTo hα with
  | more n => exact (List.mem_cons.mp ht).imp_right fun hmem => .inr (hsteps n hmem)
  | based n => exact .inr ((List.mem_append.mp ht).imp_right (hsteps n))
  | bare n _ => exact .inr (.inr (hsteps n ht))

/-- If base and step are one, as many steps can be had as one likes. -/
lemma Iterates.unfoldsTo_repeated_iff (h : g.Iterates s v v true) (hs : s ∉ α) :
    g.UnfoldsTo s α ↔ ∃ n, α = repeated n v := by
  rw [h.unfoldsTo_iff hs]
  constructor
  · rintro ⟨n, rfl | ⟨-, rfl⟩⟩
    · exact ⟨n + 1, (repeated_succ n v).symm⟩
    · exact ⟨n, rfl⟩
  · rintro ⟨n, rfl⟩
    exact ⟨n, .inr ⟨rfl, rfl⟩⟩

/-- The alternatives of a repetition. -/
def repetition (allowEmpty : Bool) (v : List SymbolId) (s : SymbolId) : List Alternative :=
  [.plain v, .plain (s :: v)] ++ if allowEmpty then [.plain []] else []

/-- A repetition of known symbols is defined. -/
lemma exists_repetition (allowEmpty : Bool) (name : String)
    (hknown : ∀ t ∈ v, g.symbols.contains t = true) :
    ∃ g', g.define name (repetition allowEmpty v) = (g', .ok g.symbols.size) ∧
      g.DefinesBy g' (repetition allowEmpty v g.symbols.size) := by
  have hlt : ∀ t ∈ v, t ≤ g.symbols.size := fun t ht =>
    Nat.le_of_lt (of_decide_eq_true (hknown t ht))
  refine exists_define fun a ha t ht => ?_
  simp only [repetition, List.cons_append, List.nil_append, List.mem_cons] at ha
  rcases ha with rfl | rfl | ha
  · exact hlt t ht
  · rcases List.mem_cons.mp ht with rfl | ht
    · exact Nat.le_refl _
    · exact hlt t ht
  · split at ha
    · rw [List.mem_singleton.mp ha] at ht
      cases ht
    · cases ha

namespace DefinesBy

/-- A choice between strings of symbols that there were. -/
lemma unfoldsTo_iff (hg : g.Valid) (h : g.DefinesBy g' alternatives)
    (hknown : ∀ a ∈ alternatives, ∀ t ∈ a.symbols, g.symbols.contains t = true)
    (hs : g.symbols.size ∉ α) :
    g'.UnfoldsTo g.symbols.size α ↔ α ∈ alternatives.map Alternative.symbols := by
  have hsymbols := h.symbols_rulesOf_size hg
  rw [unfoldsTo_iff_of_notMem (fun r hr hmem => ?_) hs, hsymbols]
  have hr : r.symbols ∈ alternatives.map Alternative.symbols :=
    hsymbols ▸ List.mem_map_of_mem hr
  obtain ⟨a, ha, heq⟩ := List.mem_map.mp hr
  exact Nat.lt_irrefl _ (of_decide_eq_true (hknown a ha _ (heq ▸ hmem)))

/-- A row of symbols that there were, and more of the same behind it. -/
lemma iterates_repetition {allowEmpty : Bool} (hg : g.Valid)
    (h : g.DefinesBy g' (repetition allowEmpty v g.symbols.size))
    (hknown : ∀ t ∈ v, g.symbols.contains t = true) (hne : SymbolId.epsilon ∉ v) :
    g'.Iterates g.symbols.size v v allowEmpty := by
  have hfresh : g.symbols.size ∉ v := fun hmem =>
    Nat.lt_irrefl _ (of_decide_eq_true (hknown _ hmem))
  have hbase : (Alternative.plain v).symbols = v := Alternative.symbols_of_notMem hne
  have hmore : (Alternative.plain (g.symbols.size :: v)).symbols = g.symbols.size :: v := by
    refine Alternative.symbols_of_notMem fun hmem => ?_
    have hsize : SymbolId.epsilon < g.symbols.size := hg.two_le_size
    rcases List.mem_cons.mp hmem with heq | hmem
    · exact Nat.ne_of_lt hsize heq
    · exact hne hmem
  refine ⟨?_, hfresh, hfresh⟩
  rw [h.symbols_rulesOf_size hg, repetition, List.map_append, List.map_cons, List.map_cons, hbase,
    hmore]
  cases allowEmpty <;> rfl

end DefinesBy

namespace Valid

lemma denotes_listOf {separator item : SymbolId} (hg : g.Valid)
    (hseparator : g.symbols.contains separator = true) (hitem : g.symbols.contains item = true)
    (hne : item ≠ SymbolId.epsilon) :
    g.Denotes (g.listOf false separator item) (IsList separator item) := by
  obtain ⟨g', hcall, hdefines⟩ := exists_listOf false hseparator hitem
  refine ⟨g', _, hcall, hdefines.conservative hg, fun α hα => ?_⟩
  rw [(hdefines.iterates hg hseparator hitem hne).unfoldsTo_iff hα]
  simp [IsList]

variable (hg : g.Valid) (hknown : ∀ t ∈ v, g.symbols.contains t = true)
  (hne : SymbolId.epsilon ∉ v)

include hg hknown hne

lemma denotes_oneOf : g.Denotes (g.oneOf v) fun α => ∃ t ∈ v, α = [t] := by
  have hcall : ∃ g', g.oneOf v = (g', .ok g.symbols.size) ∧
      g.DefinesBy g' (v.map fun t => .plain [t]) := by
    refine exists_define fun a ha t ht => ?_
    obtain ⟨t', ht', rfl⟩ := List.mem_map.mp ha
    rw [List.mem_singleton.mp ht]
    exact Nat.le_of_lt (of_decide_eq_true (hknown t' ht'))
  obtain ⟨g', hcall, hdefines⟩ := hcall
  have hsymbols : (v.map fun t => Alternative.plain [t]).map Alternative.symbols =
      v.map fun t => [t] := by
    rw [List.map_map]
    exact List.map_congr_left fun t ht =>
      Alternative.symbols_of_notMem fun hmem => hne (List.mem_singleton.mp hmem ▸ ht)
  refine ⟨g', _, hcall, hdefines.conservative hg, fun α hα => ?_⟩
  have hunfolds := hdefines.unfoldsTo_iff hg (fun a ha t ht => ?_) hα
  · rw [hunfolds, hsymbols, List.mem_map]
    exact exists_congr fun t => and_congr_right fun _ => eq_comm
  · have hmem : a.symbols ∈ v.map fun t => [t] := hsymbols ▸ List.mem_map_of_mem ha
    obtain ⟨t', ht', heq⟩ := List.mem_map.mp hmem
    rw [← heq] at ht
    exact hknown t (List.mem_singleton.mp ht ▸ ht')

lemma denotes_optional : g.Denotes (g.optional v) fun α => α = v ∨ α = [] := by
  have hcall : ∃ g', g.optional v = (g', .ok g.symbols.size) ∧
      g.DefinesBy g' [.plain v, .plain []] := by
    refine exists_define fun a ha t ht => ?_
    simp only [List.mem_cons, List.not_mem_nil, or_false] at ha
    rcases ha with rfl | rfl
    · exact Nat.le_of_lt (of_decide_eq_true (hknown t ht))
    · cases ht
  obtain ⟨g', hcall, hdefines⟩ := hcall
  have hbase : (Alternative.plain v).symbols = v := Alternative.symbols_of_notMem hne
  have hnone : (Alternative.plain []).symbols = [] := rfl
  refine ⟨g', _, hcall, hdefines.conservative hg, fun α hα => ?_⟩
  rw [hdefines.unfoldsTo_iff hg ?_ hα, List.map_cons, List.map_singleton, hbase, hnone]
  · simp
  · simpa [hbase, hnone] using hknown

lemma denotes_oneOrMore : g.Denotes (g.oneOrMore v) fun α => ∃ n, 1 ≤ n ∧ α = repeated n v := by
  obtain ⟨g', hcall, hdefines⟩ := exists_repetition false _ hknown
  refine ⟨g', _, hcall, hdefines.conservative hg, fun α hα => ?_⟩
  rw [(hdefines.iterates_repetition hg hknown hne).unfoldsTo_iff hα]
  constructor
  · rintro ⟨n, rfl | ⟨hempty, -⟩⟩
    · exact ⟨n + 1, Nat.le_add_left 1 n, (repeated_succ n v).symm⟩
    · cases hempty
  · rintro ⟨n, hn, rfl⟩
    obtain ⟨n, rfl⟩ := Nat.exists_eq_add_of_le' hn
    exact ⟨n, .inl (repeated_succ n v)⟩

lemma denotes_zeroOrMore : g.Denotes (g.zeroOrMore v) fun α => ∃ n, α = repeated n v := by
  obtain ⟨g', hcall, hdefines⟩ := exists_repetition true _ hknown
  exact ⟨g', _, hcall, hdefines.conservative hg, fun α =>
    (hdefines.iterates_repetition hg hknown hne).unfoldsTo_repeated_iff⟩

end Valid

end Grammar

end ShiftReduce
