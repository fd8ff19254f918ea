import ShiftReduce.Proofs.Table.Headed
/-!
# A rule that is completed again and again where keys wrap around

The crowded grammars whose first symbol has the rules `S → x` and `S → S A`. If the production of
`A` begins with the key of `S → x .`, then in the state after `S` the construction takes `A → . y`
for that item. On `y` the rule is reduced there, which leads from this state back to it.

Main statement: `Grammar.parser_relapsed`.
-/

namespace ShiftReduce

namespace Grammar

/-- The rules `S → x`, `S → S A` and `A → y`, and before the last of them, for a non-terminal that
no sentence has, a rule of `n` symbols and `m` rules of one symbol. -/
def relapsing (n m : Nat) : Grammar := headed [6] [2, 4] n m

variable {n m : Nat}

lemma valid_relapsing (hn : n ≠ 0) : (relapsing n m).Valid :=
  valid_headed hn (by decide) (by decide) (by decide) (by decide)

lemma eoi_notMem_relapsing : ∀ r ∈ (relapsing n m).rules, SymbolId.eoi ∉ r.clause := by
  refine forall_mem_headed (by decide) (by decide) fun r hr heoi => ?_
  exact absurd (two_lt_of_mem_clause r hr _ heoi) (by decide)

/-- The keys of the productions of the first symbol fit in a word, but the last production begins
with the key of `S → x .`. -/
structure Relapses (n m : Nat) : Prop where
  two_le : 2 ≤ n
  fits : 3 * (n + 1) ≤ wordRange
  wraps : (m + 4) * (n + 1) % wordRange = n + 2

/-! ## What begins the last symbol -/

lemma eq_last_of_lhs (hn : n ≠ 0) {p : Nat} {prod : Production}
    (hp : ((relapsing n m).productions 2).get? p = some prod) (hlhs : prod.lhs = 4) :
    prod.rhs = [.terminal 7] := by
  have hmem := FirstSets.mem_list_iff.mpr ⟨p, hp⟩
  rw [relapsing, headed_productions hn, List.mem_append, List.mem_append] at hmem
  rcases hmem with (hmem | hmem) | hmem
  · have hheads : ∀ prod ∈ heads [6] [2, 4], prod.lhs ≠ 4 := by decide
    exact absurd hlhs (hheads prod hmem)
  · rw [(idle_bounds prod hmem).1] at hlhs
    cases hlhs
  · rw [List.mem_singleton.mp hmem]

lemma eq_of_derives_last (hn : n ≠ 0) {γ : List Part}
    (h : ((relapsing n m).productions 2).Derives [.nonterminal 4] γ) :
    γ = [.nonterminal 4] ∨ γ = [.terminal 7] := by
  induction h with
  | refl => exact .inl rfl
  | @tail δ _ _ hstep ih =>
    cases hstep with
    | @expand before after p prod hp =>
      rcases ih with heq | heq
      · obtain ⟨rfl, hcons⟩ | ⟨l, rfl, hnil⟩ := List.append_eq_cons_iff.mp heq
        · simp only [List.cons.injEq, Part.nonterminal.injEq] at hcons
          obtain ⟨hlhs, rfl⟩ := hcons
          rw [eq_last_of_lhs hn hp hlhs]
          exact .inr rfl
        · simp at hnil
      · have hmem : Part.nonterminal prod.lhs ∈ [Part.terminal 7] := heq ▸ by simp
        simp at hmem

/-- Only `y` begins `A`, which does not vanish. -/
lemma relapsing_first (hn : n ≠ 0) :
    (FirstSets.compute ((relapsing n m).productions 2)).get 4 = ⟨.singleton 7, false⟩ := by
  have hps : ((relapsing n m).productions 2).Proper 2 :=
    (valid_relapsing hn).proper_productions rfl
  have hparts : ∀ part ∈ [Part.nonterminal 4],
      part.symbol < ((relapsing n m).productions 2).width := by
    rw [List.forall_mem_singleton]
    exact (by decide : 4 < 9)
  have hlast := (hasCrowd_headed [6] [2, 4] n m).get?_last hn
  rw [← FirstSets.ofParts_nonterminal]
  refine FirstSets.eq_of_same ?_ fun t => ?_
  · rw [Bool.eq_false_iff, ne_eq, FirstSets.nullable_compute hps hparts]
    intro hnullable
    rcases eq_of_derives_last hn hnullable with h | h <;> cases h
  · rw [FirstSets.mem_compute hps hparts, TerminalSet.mem_singleton]
    constructor
    · rintro ⟨β, hβ⟩
      rcases eq_of_derives_last hn hβ with h | h <;> cases h
      rfl
    · rintro rfl
      exact ⟨[], .of_production hlast⟩

/-! ## The table -/

/-- The productions of `S`, and as many others between them and that of `A` as make it begin, with a
suitable stride, with the key of `S → x .`. -/
def relapsingBasis : Basis where
  productions :=
    ⟨⟨heads [6] [2, 4] ++ (.replicate 7 ⟨3, [], none⟩ ++ [⟨4, [.terminal 7], none⟩])⟩, 9⟩
  stride := 954437177
  firsts := .replicate 4 FirstSet.none ++ [⟨.singleton 7, false⟩]

lemma relapsing_heads : heads [6] [2, 4] =
    [⟨9, [.nonterminal 2], none⟩, ⟨2, [.terminal 6], some 0⟩,
      ⟨2, [.nonterminal 2, .nonterminal 4], some 1⟩] := rfl

lemma relapsingBasis_heads (h : Relapses n m) : HeadBasis [6] [2, 4] n m {2, 4} relapsingBasis where
  two_le := h.two_le
  width := rfl
  fits := h.fits
  fits_small := by decide
  short := by
    have hshort : ∀ prod ∈ heads [6] [2, 4], prod.rhs.length ≤ 2 := by decide
    refine fun prod hprod => ⟨(hshort prod hprod).trans h.two_le, ?_⟩
    exact Nat.lt_of_le_of_lt (hshort prod hprod) (by decide)
  same := get?_of_append rfl
  demand := by
    intro prod hprod dot s β hrest
    simp only [relapsing_heads, List.mem_cons, List.not_mem_nil, or_false] at hprod
    rcases hprod with rfl | rfl | rfl
    · match dot with
      | 0 => cases hrest; exact ⟨.inl rfl, FirstSets.ahead_nil _ _⟩
      | dot + 1 => cases List.drop_nil.symm.trans hrest
    · match dot with
      | 0 => cases hrest
      | dot + 1 => cases List.drop_nil.symm.trans hrest
    · match dot with
      | 0 =>
        cases hrest
        refine ⟨.inl rfl, fun set => ?_⟩
        have hfirst := relapsing_first (n := n) (m := m) (by have := h.two_le; omega)
        rw [relapsing] at hfirst
        rw [FirstSets.ahead, FirstSets.ofParts_nonterminal, hfirst]
        rfl
      | 1 => cases hrest; exact ⟨.inr rfl, FirstSets.ahead_nil _ _⟩
      | dot + 2 => cases List.drop_nil.symm.trans hrest
  openings := by
    have hn0 : n ≠ 0 := by have := h.two_le; omega
    rintro s (rfl | rfl)
    · refine ⟨[⟨1, 0⟩, ⟨2, 0⟩], by decide, ?_, ?_⟩
      · rw [crowded_range_start hn0]
        rfl
      · exact List.forall_mem_cons.mpr ⟨⟨_, rfl, Nat.zero_le _⟩,
          List.forall_mem_singleton.mpr ⟨_, rfl, Nat.zero_le _⟩⟩
    · refine ⟨[⟨1, 1⟩], by decide, ?_, List.forall_mem_singleton.mpr ⟨_, rfl, Nat.le_refl _⟩⟩
      rw [crowded_range_last hn0, List.map_singleton, h.wraps, List.map_singleton, Nat.one_mul,
        show n + 1 + Dotted.dot ⟨1, 1⟩ = n + 2 from rfl,
        Nat.mod_eq_of_lt (by have := h.fits; have := h.two_le; omega)]

/-- The rows of the table. On `y` the state after `S` reduces `S → x`. -/
def relapsingRows : List Row :=
  [⟨[none, none, none, none, none, none, some (.shift 2), none, none],
      [none, none, some 1, none, none, none, none, none, none], []⟩,
    ⟨[some .accept, none, none, none, none, none, none, some (.reduce 0), none],
      [none, none, none, none, some 3, none, none, none, none],
      [⟨1, 0, .accept, .reduce 0, .accept⟩]⟩,
    ⟨[some (.reduce 0), none, none, none, none, none, none, some (.reduce 0), none],
      .replicate 9 none, []⟩,
    ⟨[some (.reduce 1), none, none, none, none, none, none, some (.reduce 1), none],
      .replicate 9 none, []⟩]

/-- The table of the grammar. -/
def relapsingTable (n m : Nat) : ActionTable where
  fingerprint := (relapsing n m).fingerprint
  width := 9
  actions := relapsingRows.map Row.actions
  gotos := relapsingRows.map Row.gotos
  expected := [[6], [0, 7], [0, 7], [0, 7]]
  conflicts := [⟨1, 0, .accept, .reduce 0, .accept⟩]

/-- What is discovered over the small basis. -/
def relapsingDiscovery : Discovery :=
  Discovery.run relapsingBasis 9 ⟨[State.ofKernel relapsingBasis.startKernel], [0]⟩

/-- The two actions that meet are settled alike in every grammar. -/
lemma relapsingDiscovery_rows (g : Grammar) : (relapsingDiscovery.states.mapIdx fun i st =>
    Row.ofState g relapsingBasis i st) = relapsingRows := by
  rfl

lemma relapsing_table (h : Relapses n m) : (relapsing n m).table = .ok (relapsingTable n m) :=
  (relapsingBasis_heads h).table (d := relapsingDiscovery) rfl rfl (relapsingDiscovery_rows _)

lemma parser_relapsing (h : Relapses n m) :
    (relapsing n m).parser = .ok ⟨relapsing n m, relapsingTable n m⟩ := by
  have hlevels : (relapsing n m).inheritLevels = relapsing n m := headed_inheritLevels _ _ n m
  rw [parser, hlevels, relapsing_table h]
  rfl

/-- A clause of just under 1400000 symbols and 6144 short ones, so that the last production begins
with the key of `S → x .`. -/
def relapsed : Grammar := relapsing 1397418 6144

lemma relapses_relapsed : Relapses 1397418 6144 := ⟨by decide, by decide, by decide⟩

end Grammar

end ShiftReduce
