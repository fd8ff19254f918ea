import ShiftReduce.Proofs.Table.Headed
/-!
# An empty clause where keys wrap around

The crowded grammars whose first symbol has the rules `S → ε` and `S → ( A x`. If the production of
`A` begins with key 0, then after `(` the construction takes it for `^ → . S`. Accepting does not
ask for lookaheads, so what is entered over `S` there accepts at the end of input, which no item
after `(` expects.

Main statement: `Grammar.parser_overlaid`.
-/

namespace ShiftReduce

namespace Grammar

/-- The rules `S → ε`, `S → ( A x` and `A → y`, and before the last of them, for a non-terminal that
no sentence has, a rule of `n` symbols and `m` rules of one symbol. -/
def vacant (n m : Nat) : Grammar :=
  { crowded n m with
    rules := [.plain 0 2 [1], .plain 1 2 [5, 4, 6]] ++ (crowded n m).rules.drop 2 }

variable {n m : Nat}

lemma vacant_eq (n m : Nat) : vacant n m = headed [1] [5, 4, 6] n m := rfl

lemma valid_vacant (hn : n ≠ 0) : (vacant n m).Valid :=
  valid_headed hn (by decide) (by decide) (by decide) (by decide)

/-- The productions of `S`, with that of `^` standing for the one of `A`, whose key it has. -/
def aliasedBasis : Basis where
  productions :=
    ⟨#[⟨4, [.nonterminal 2], none⟩, ⟨2, [], some 0⟩,
      ⟨2, [.terminal 5, .nonterminal 4, .terminal 6], some 1⟩], 9⟩
  stride := 4
  firsts := []

lemma vacant_heads : heads [1] [5, 4, 6] =
    [⟨9, [.nonterminal 2], none⟩, ⟨2, [], some 0⟩,
      ⟨2, [.terminal 5, .nonterminal 4, .terminal 6], some 1⟩] := rfl

lemma aliasedBasis_heads (h : Wraps n m) (hn : 3 ≤ n) :
    HeadBasis [1] [5, 4, 6] n m {2, 4} aliasedBasis where
  two_le := h.two_le
  width := rfl
  fits := h.fits
  fits_small := by decide
  short := by
    have hshort : ∀ prod ∈ heads [1] [5, 4, 6], prod.rhs.length ≤ 3 := by decide
    exact fun prod hprod => ⟨(hshort prod hprod).trans hn, Nat.lt_succ_of_le (hshort prod hprod)⟩
  same := by
    intro p prod hprod
    match p, HeadBasis.lt_three hprod with
    | 0, _ => cases hprod; exact ⟨_, rfl, rfl, rfl⟩
    | 1, _ => cases hprod; exact ⟨_, rfl, rfl, rfl⟩
    | 2, _ => cases hprod; exact ⟨_, rfl, rfl, rfl⟩
  demand := by
    intro prod hprod dot s β hrest
    simp only [vacant_heads, List.mem_cons, List.not_mem_nil, or_false] at hprod
    rcases hprod with rfl | rfl | rfl
    · match dot with
      | 0 => cases hrest; exact ⟨.inl rfl, FirstSets.ahead_nil _ _⟩
      | dot + 1 => cases List.drop_nil.symm.trans hrest
    · rw [List.drop_nil] at hrest
      cases hrest
    · match dot with
      | 0 => cases hrest
      | 1 => cases hrest; exact ⟨.inr rfl, FirstSets.ahead_terminal _ _ 6 _⟩
      | 2 => cases hrest
      | dot + 3 => cases List.drop_nil.symm.trans hrest
  openings := by
    have hn0 : n ≠ 0 := by omega
    rintro s (rfl | rfl)
    · refine ⟨[⟨1, 0⟩, ⟨2, 0⟩], by decide, ?_, ?_⟩
      · rw [crowded_range_start hn0]
        rfl
      · exact List.forall_mem_cons.mpr ⟨⟨_, rfl, Nat.zero_le _⟩,
          List.forall_mem_singleton.mpr ⟨_, rfl, Nat.zero_le _⟩⟩
    · refine ⟨[⟨0, 0⟩], by decide, ?_, List.forall_mem_singleton.mpr ⟨_, rfl, Nat.zero_le _⟩⟩
      rw [crowded_range_last hn0, List.map_singleton, h.wraps]
      simp

/-! ## The table -/

/-- What is discovered over the basis with the alias. -/
def aliasedDiscovery : Discovery :=
  Discovery.run aliasedBasis 9 ⟨[State.ofKernel aliasedBasis.startKernel], [0]⟩

/-- The rows of the table. After `(` a sentence may be accepted. -/
def vacantRows : List Row :=
  [⟨[some (.reduce 0), some (.reduce 0), none, none, none, some (.shift 2), none, none, none],
      [none, none, some 1, none, none, none, none, none, none], []⟩,
    ⟨some .accept :: .replicate 8 none, .replicate 9 none, []⟩,
    ⟨[none, some (.reduce 0), none, none, none, some (.shift 2), some (.reduce 0), none, none],
      [none, none, some 1, none, some 3, none, none, none, none], []⟩,
    ⟨[none, none, none, none, none, none, some (.shift 4), none, none], .replicate 9 none, []⟩,
    ⟨[some (.reduce 1), none, none, none, none, none, some (.reduce 1), none, none],
      .replicate 9 none, []⟩]

/-- The table of the grammar. -/
def vacantTable (n m : Nat) : ActionTable where
  fingerprint := (vacant n m).fingerprint
  width := 9
  actions := vacantRows.map Row.actions
  gotos := vacantRows.map Row.gotos
  expected := [[0, 1, 5], [0], [1, 5, 6], [6], [0, 6]]
  conflicts := []

/-- No two actions meet in a cell, so the rows are the same for every grammar. -/
lemma aliasedDiscovery_rows (g : Grammar) : (aliasedDiscovery.states.mapIdx fun i st =>
    Row.ofState g aliasedBasis i st) = vacantRows := by
  rfl

lemma vacant_table (h : Wraps n m) (hn : 3 ≤ n) : (vacant n m).table = .ok (vacantTable n m) :=
  (aliasedBasis_heads h hn).table (d := aliasedDiscovery) rfl rfl (aliasedDiscovery_rows _)

/-- A grammar in which the production of `A` is the one of number 2^12 and begins with key 0. -/
def overlaid : Grammar := vacant 1048575 4092

lemma parser_overlaid : overlaid.parser = .ok ⟨overlaid, vacantTable 1048575 4092⟩ := by
  have hparser : ∀ n m, (vacant n m).table = .ok (vacantTable n m) →
      (vacant n m).parser = .ok ⟨vacant n m, vacantTable n m⟩ := by
    intro n m htable
    rw [parser, vacant_eq, headed_inheritLevels, ← vacant_eq, htable]
    rfl
  exact hparser _ _ (vacant_table wraps_overfull (by decide))

end Grammar

end ShiftReduce
