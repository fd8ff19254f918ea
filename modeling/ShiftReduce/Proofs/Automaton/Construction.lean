import ShiftReduce.Proofs.Automaton.Lr1
/-!
# The automaton of a grammar

The search for the states of a grammar whose item keys are words of 32 bits ends, and what it finds
is the LALR(1) automaton of the grammar. A grammar may use a non-terminal that derives no string of
terminals; then some states have lookaheads that no canonical set of LR(1) items accounts for.
-/

namespace ShiftReduce

/-- Whether keys fit can be computed. -/
instance (ps : Productions) : Decidable ps.KeysFit :=
  decidable_of_iff (∀ x ∈ ps.list.toList.zipIdx, x.2 * ps.stride + x.1.rhs.length < wordRange) (by
    simp only [Productions.KeysFit, Prod.forall, List.mk_mem_zipIdx_iff_getElem?,
      Array.getElem?_toList, Productions.get?]
    exact forall_comm)

namespace Grammar

variable {g : Grammar} {a : Automaton}

lemma automaton_eq_ok (h : g.automaton = .ok a) :
    ∃ target, g.target = some target ∧ g.validate = .ok () ∧
      a = (g.productions target).basis.automaton := by
  rw [automaton] at h
  split at h
  · simp at h
  · simp at h
  · next target hvalidate htarget =>
    exact ⟨target, htarget, hvalidate, (Except.ok.inj h).symm⟩

/-- The automaton of a grammar is its LALR(1) automaton: the queue of states to visit runs empty,
and the states found are the reachable LR(0) kernels, with the LALR lookaheads. If every
non-terminal in use derives a string of terminals, these are the union of the lookaheads over the
canonical sets of LR(1) items. -/
theorem Valid.automaton_isLalr (hg : g.Valid) (hk : g.KeysFit) (ha : g.automaton = .ok a) :
    ∃ target, g.target = some target ∧
      let ps := g.productions target
      let d := Discovery.run ps.basis ps.basis.visitBound (Discovery.initial ps.basis)
      d.queue = [] ∧ a = ⟨ps.basis, d.states⟩ ∧ a.IsLalr ps ∧
        ((∀ s, ps.InUse s → ps.Productive s) →
          ∀ st ∈ a.states, ∀ item ∈ st.items ps.basis, ∀ t, t ∈ item.lookaheads ↔
            ∃ I, ps.CanonicalLr1 I ∧ Prod.fst '' I = ps.closure (st.kernelSet ps) ∧
              (ps.basis.dotted item.key, t) ∈ I) := by
  obtain ⟨target, ht, -, rfl⟩ := automaton_eq_ok ha
  have hps := hg.proper_productions ht
  have hlalr := Productions.isLalr_automaton hps (hk target ht)
  refine ⟨target, ht, (Discovery.run_initial hps (hk target ht)).2, rfl, hlalr, ?_⟩
  intro hproductive st hst item hitem t
  rw [hlalr.lookaheads st hst item hitem t]
  exact Productions.lalr_iff_canonicalLr1 hps hproductive

/-- Brackets around a word: `S → ( S )` and `S → x`. -/
def nested : Grammar where
  name := none
  symbols := ⟨SymbolTable.initial.entries ++
    [⟨.nonterminal, "S"⟩, ⟨.terminal, "("⟩, ⟨.terminal, ")"⟩, ⟨.terminal, "x"⟩]⟩
  rules := [.plain 0 2 [3, 2, 4], .plain 1 2 [5]]
  levels := []
  target := some 2

lemma valid_nested : nested.Valid :=
  ⟨⟨_, rfl⟩, rfl, by decide, by decide, by decide, rfl⟩

lemma keysFit_nested : nested.KeysFit := by
  rintro target ⟨⟩
  decide

lemma productive_nested {s : SymbolId} (h : (nested.productions 2).InUse s) :
    (nested.productions 2).Productive s := by
  have hs : ∀ {p : Nat} {prod : Production}, (nested.productions 2).get? p = some prod →
      .nonterminal s ∈ prod.rhs → s = 2 := by
    intro p prod hp hmem
    have hlist : ∀ prod ∈ (nested.productions 2).list.toList, ∀ part ∈ prod.rhs,
        part = .nonterminal part.symbol → part.symbol = 2 := by decide
    exact hlist prod (FirstSets.mem_list_iff.mpr ⟨p, hp⟩) _ hmem rfl
  have hs2 : s = 2 := by
    cases h with
    | start hp hmem => exact hs hp hmem
    | mentioned _ hp hmem => exact hs hp hmem
  subst hs2
  have hget : (nested.productions 2).get? 2 = some ⟨2, [.terminal 5], some 1⟩ := rfl
  exact ⟨[5], Productions.Derives.of_production hget⟩

theorem automaton_isLalr_nested :
    ∃ a, nested.automaton = .ok a ∧ a.IsLalr (nested.productions 2) ∧
      ∀ st ∈ a.states, ∀ item ∈ st.items (nested.productions 2).basis, ∀ t,
        t ∈ item.lookaheads ↔ ∃ I, (nested.productions 2).CanonicalLr1 I ∧
          Prod.fst '' I = (nested.productions 2).closure (st.kernelSet (nested.productions 2)) ∧
          ((nested.productions 2).basis.dotted item.key, t) ∈ I := by
  refine ⟨(nested.productions 2).basis.automaton, rfl, ?_⟩
  obtain ⟨target, ⟨⟩, -, -, hlalr, hlr1⟩ :=
    valid_nested.automaton_isLalr keysFit_nested (a := (nested.productions 2).basis.automaton) rfl
  exact ⟨hlalr, hlr1 fun _ => productive_nested⟩

/-- A grammar with a non-terminal that derives no string of terminals: `S → Y U`, `U → U u`,
`Y → Z z` and `Z → c`. -/
def endless : Grammar where
  name := none
  symbols := ⟨SymbolTable.initial.entries ++
    [⟨.nonterminal, "S"⟩, ⟨.nonterminal, "Y"⟩, ⟨.nonterminal, "U"⟩, ⟨.terminal, "u"⟩,
      ⟨.nonterminal, "Z"⟩, ⟨.terminal, "z"⟩, ⟨.terminal, "c"⟩]⟩
  rules := [.plain 0 2 [3, 4], .plain 1 4 [4, 5], .plain 2 3 [6, 7], .plain 3 6 [8]]
  levels := []
  target := some 2

lemma valid_endless : endless.Valid :=
  ⟨⟨_, rfl⟩, rfl, by decide, by decide, by decide, rfl⟩

lemma keysFit_endless : endless.KeysFit := by
  rintro target ⟨⟩
  decide

/-- Nothing begins what stands behind `Y` in `S → Y U`. -/
lemma not_begins_endless (a t : SymbolId) :
    ¬ (endless.productions 2).Begins ([.nonterminal 4] ++ [.terminal a]) t := by
  have hps : (endless.productions 2).Proper 2 := valid_endless.proper_productions rfl
  have hparts : ∀ part ∈ [Part.nonterminal 4], part.symbol < (endless.productions 2).width := by
    decide
  have hnone : (FirstSets.compute (endless.productions 2)).ofParts [.nonterminal 4] =
      FirstSet.none := by
    decide +kernel
  rw [Productions.begins_append_iff, ← FirstSets.mem_compute hps hparts,
    ← FirstSets.nullable_compute hps hparts, hnone]
  simp [FirstSet.none]

/-- The canonical sets of LR(1) items have items of `^`, `S` and `U` only. -/
lemma production_lt_three {I : Set (Dotted × SymbolId)}
    (h : (endless.productions 2).CanonicalLr1 I) : ∀ x ∈ I, x.1.production < 3 := by
  have close : ∀ {J : Set (Dotted × SymbolId)}, (∀ x ∈ J, x.1.production < 3) →
      ∀ x ∈ (endless.productions 2).lr1Closure J, x.1.production < 3 := by
    intro J hJ x hx
    induction hx with
    | kernel hx => exact hJ _ hx
    | @opening i j s a t β _ hrest hj ht ih =>
      -- `Y` could be opened only from `S → . Y U`, and there nothing begins what follows
      have hs : s = 2 ∨ s = 4 := by
        obtain ⟨p, dot⟩ := i
        obtain ⟨prod, hp, hpart, rfl⟩ := Productions.exists_production_of_rest hrest
        match p, dot, ih with
        | 0, 0, _ => cases hp; cases hpart; exact .inl rfl
        | 0, dot + 1, _ => cases hp; cases hpart
        | 1, 0, _ => cases hp; cases hpart; exact absurd ht (not_begins_endless a t)
        | 1, 1, _ => cases hp; cases hpart; exact .inr rfl
        | 1, dot + 2, _ => cases hp; cases hpart
        | 2, 0, _ => cases hp; cases hpart; exact .inr rfl
        | 2, 1, _ => cases hp; cases hpart
        | 2, dot + 2, _ => cases hp; cases hpart
      have hrange : j.production ∈ (endless.productions 2).range s :=
        valid_endless.mem_range_productions.mpr hj.2
      have hall : ∀ s ∈ [2, 4], ∀ p ∈ (endless.productions 2).range s, p < 3 := by decide
      exact hall s (by simpa using hs) _ hrange
  induction h with
  | start => exact close (by simp [Dotted.start])
  | goto _ _ ih =>
    refine close ?_
    rintro _ ⟨x, hx, β, -, rfl⟩
    exact ih x hx

/-- The start state of this grammar expects `c` and then `z` for `Z`, but in the canonical sets of
LR(1) items there is no item of `Z`. -/
theorem automaton_endless :
    ∃ a, endless.automaton = .ok a ∧ endless.Valid ∧ endless.KeysFit ∧
      ∃ st ∈ a.states, ∃ item ∈ st.items (endless.productions 2).basis, ∃ t ∈ item.lookaheads,
        ∀ I, (endless.productions 2).CanonicalLr1 I →
          ((endless.productions 2).basis.dotted item.key, t) ∉ I := by
  have hitem : ∃ st ∈ (endless.productions 2).basis.automaton.states,
      ∃ item ∈ st.items (endless.productions 2).basis,
        item.key = 12 ∧ item.lookaheads.contains 7 = true := by
    decide +kernel
  obtain ⟨st, hst, item, hitem, hkey, ht⟩ := hitem
  refine ⟨_, rfl, valid_endless, keysFit_endless, st, hst, item, hitem, 7, ht, fun I hI hmem => ?_⟩
  have hlt := production_lt_three hI _ hmem
  rw [hkey] at hlt
  exact absurd hlt (by decide)

end Grammar

end ShiftReduce
