import ShiftReduce.Grammar.Shorthand
import ShiftReduce.Proofs.Grammar.Level
import ShiftReduce.Proofs.Table.Crowd
import ShiftReduce.Proofs.Table.Front
/-!
# A list where keys wrap around

The grammars below accept a list of `A` with commas, where `A` has the rule `A → y` behind a crowd
of others. If the production of `A` begins with the key of `L → L , A .`, the construction takes
`A → . y` for that item. No state shifts `y`, and the recursive rule is reduced where an item should
come: in front of the first comma, with nothing on the stack, and behind each one.

Main statement: `Grammar.parser_listed`.
-/

namespace ShiftReduce

namespace Grammar

/-- The rules `L → A`, `L → L , A` and `A → y`, and before the last of them, for a non-terminal that
no sentence has, a rule of `n` symbols and `m` rules of one symbol. -/
def listed (n m : Nat) : Grammar where
  name := none
  symbols := ⟨SymbolTable.initial.entries ++
    [⟨.nonterminal, "A"⟩, ⟨.terminal, ","⟩, ⟨.nonterminal, "listOf(A)"⟩, ⟨.nonterminal, "U"⟩,
      ⟨.terminal, "y"⟩]⟩
  rules := [.plain 0 4 [2], { Rule.plain 1 4 [4, 3, 2] with action := some flattenList },
    .plain 2 5 (.replicate n 5)] ++ (List.range' 3 m).map (fun id => .plain id 5 [6]) ++
      [.plain (m + 3) 2 [6]]
  levels := []
  target := some 4

variable {n m : Nat}

lemma hasCrowd_listed (n m : Nat) : (listed n m).HasCrowd ⟨4, 5, 2, 6, 6, n, m⟩ (.plain 0 4 [2])
    { Rule.plain 1 4 [4, 3, 2] with action := some flattenList } where
  accepts := rfl
  rules := rfl
  first := ⟨rfl, rfl⟩
  second := ⟨rfl, rfl⟩
  nonterminals := (by decide : ∀ s ∈ [4, 5, 2], (listed 0 0).symbols.isNonterminal s = true)
  terminals := (by decide : ∀ s ∈ [6, 6], (listed 0 0).symbols.isTerminal s = true)
  nodup := (by decide : [4, 5, 2].Nodup)
  epsilon_notMem := (by decide : SymbolId.epsilon ∉ [5, 6, 6])

lemma valid_listed (hn : n ≠ 0) : (listed n m).Valid :=
  (hasCrowd_listed n m).valid hn ⟨_, rfl⟩
    (by decide : [2] ≠ [] ∧ ∀ s ∈ [2], (listed 0 0).symbols.contains s = true)
    (by decide : [4, 3, 2] ≠ [] ∧ ∀ s ∈ [4, 3, 2], (listed 0 0).symbols.contains s = true)

lemma listed_inheritLevels (n m : Nat) : (listed n m).inheritLevels = listed n m :=
  inheritLevels_of_no_levels rfl ((hasCrowd_listed n m).forall_mem rfl rfl rfl (fun _ => rfl) rfl)

lemma listed_validate (n m : Nat) : (listed n m).validate = .ok () :=
  (hasCrowd_listed n m).validate (by decide : ∀ s < (listed 0 0).symbols.size,
    (listed 0 0).symbols.isNonterminal s = true → s ∈ [4, 5, 2])

/-- The keys of the productions of the list fit in a word, but the last production begins with the
key of `L → L , A .`. -/
structure Completes (n m : Nat) : Prop where
  three_le : 3 ≤ n
  fits : 3 * (n + 1) ≤ wordRange
  wraps : (m + 4) * (n + 1) % wordRange = 2 * (n + 1) + 3

/-! ## The table -/

/-- The productions of the list, that of `^` in front. -/
def listedFront : List Production :=
  [⟨7, [.nonterminal 4], none⟩, ⟨4, [.nonterminal 2], some 0⟩,
    ⟨4, [.nonterminal 4, .terminal 3, .nonterminal 2], some 1⟩]

/-- The productions of the list, and as many others between them and that of `A` as make it begin,
with a suitable stride, with the key of `L → L , A .`. -/
def listedBasis : Basis where
  productions :=
    ⟨⟨listedFront ++ (.replicate 6 ⟨5, [], none⟩ ++ [⟨2, [.terminal 6], none⟩])⟩, 7⟩
  stride := 613566757
  firsts := []

lemma listedBasis_front (h : Completes n m) :
    FrontBasis (listed n m) 4 listedFront {4, 2} listedBasis := by
  have hthree := h.three_le
  have hn : n ≠ 0 := by omega
  have hshort : ∀ prod ∈ listedFront, prod.rhs.length ≤ 3 := by decide
  have hstride : ((listed n m).productions 4).stride = n + 1 :=
    (hasCrowd_listed n m).stride (by omega : 1 ≤ n)
      fun prod hprod => (hshort prod hprod).trans hthree
  exact {
    target := rfl
    first := ⟨_, (List.append_assoc ..).symm.trans ((hasCrowd_listed n m).productions hn).symm⟩
    width := rfl
    fits := by
      rw [hstride]
      exact h.fits
    fits_small := by decide
    short := fun prod hprod => Nat.lt_of_le_of_lt (hshort prod hprod) (by decide)
    same := get?_of_append rfl
    demand := by
      intro prod hprod dot s β hrest
      simp only [listedFront, List.mem_cons, List.not_mem_nil, or_false] at hprod
      rcases hprod with rfl | rfl | rfl
      · match dot with
        | 0 => cases hrest; exact ⟨.inl rfl, FirstSets.ahead_nil _ _⟩
        | dot + 1 => cases List.drop_nil.symm.trans hrest
      · match dot with
        | 0 => cases hrest; exact ⟨.inr rfl, FirstSets.ahead_nil _ _⟩
        | dot + 1 => cases List.drop_nil.symm.trans hrest
      · match dot with
        | 0 =>
          cases hrest
          -- a comma follows, whatever `A` may begin with
          exact ⟨.inl rfl, FirstSets.ahead_terminal _ _ 3 _⟩
        | 1 => cases hrest
        | 2 => cases hrest; exact ⟨.inr rfl, FirstSets.ahead_nil _ _⟩
        | dot + 3 => cases List.drop_nil.symm.trans hrest
    openings := by
      rw [hstride]
      rintro s (rfl | rfl)
      · refine ⟨[⟨1, 0⟩, ⟨2, 0⟩], by decide, ?_, ?_⟩
        · rw [(hasCrowd_listed n m).range_start hn]
          rfl
        · exact List.forall_mem_cons.mpr ⟨⟨_, rfl, Nat.zero_le _⟩,
            List.forall_mem_singleton.mpr ⟨_, rfl, Nat.zero_le _⟩⟩
      · refine ⟨[⟨2, 3⟩], by decide, ?_, List.forall_mem_singleton.mpr ⟨_, rfl, Nat.le_refl _⟩⟩
        have hlast : ((listed n m).productions 4).range 2 = [m + 4] :=
          (hasCrowd_listed n m).range_last hn
        have hlt : 2 * (n + 1) + 3 < wordRange := by
          have := h.fits
          omega
        rw [hlast, List.map_singleton, h.wraps]
        exact congrArg (fun key => [key]) (Nat.mod_eq_of_lt hlt).symm }

/-- What is discovered over the small basis. -/
def listedDiscovery : Discovery :=
  Discovery.run listedBasis 9 ⟨[State.ofKernel listedBasis.startKernel], [0]⟩

/-- The rows of the table. The recursive rule is reduced at the start and behind a comma. -/
def listedRows : List Row :=
  [⟨[some (.reduce 1), none, none, some (.reduce 1), none, none, none],
      [none, none, some 2, none, some 1, none, none], []⟩,
    ⟨[some .accept, none, none, some (.shift 3), none, none, none], .replicate 7 none, []⟩,
    ⟨[some (.reduce 0), none, none, some (.reduce 0), none, none, none], .replicate 7 none, []⟩,
    ⟨[some (.reduce 1), none, none, some (.reduce 1), none, none, none],
      [none, none, some 4, none, none, none, none], []⟩,
    ⟨[some (.reduce 1), none, none, some (.reduce 1), none, none, none], .replicate 7 none, []⟩]

/-- No two actions meet in a cell, so the rows are the same for every grammar. -/
lemma listedDiscovery_rows (g : Grammar) : (listedDiscovery.states.mapIdx fun i st =>
    Row.ofState g listedBasis i st) = listedRows := by
  rfl

/-- The table of the grammar. -/
def listedTable (n m : Nat) : ActionTable where
  fingerprint := (listed n m).fingerprint
  width := 7
  actions := listedRows.map Row.actions
  gotos := listedRows.map Row.gotos
  expected := [[0, 3], [0, 3], [0, 3], [0, 3], [0, 3]]
  conflicts := []

lemma listed_table (h : Completes n m) : (listed n m).table = .ok (listedTable n m) := by
  have hn : n ≠ 0 := by
    have := h.three_le
    omega
  exact (listedBasis_front h).table (List.cons_ne_nil _ _) (listed_validate n m)
    ((hasCrowd_listed n m).visitBound hn) (d := listedDiscovery) rfl rfl (listedDiscovery_rows _)

lemma parser_listed (h : Completes n m) :
    (listed n m).parser = .ok ⟨listed n m, listedTable n m⟩ := by
  rw [parser, listed_inheritLevels, listed_table h]
  rfl

/-- A clause of just under 1300000 symbols and 6653 short ones, so that the last production begins
with the key of `L → L , A .`. -/
def overlisted : Grammar := listed 1290748 6653

lemma completes_overlisted : Completes 1290748 6653 := ⟨by decide, by decide, by decide⟩

end Grammar

end ShiftReduce
