import ShiftReduce.Parse.Build
import ShiftReduce.Proofs.Grammar.Level
import ShiftReduce.Proofs.Table.Crowd
/-!
# Keys that wrap around

A key has 32 bits. In a grammar with many productions or a long clause the key of an item can wrap
around to that of another one, and nothing notices. The grammars below have three rules that matter,
`S → x`, `S → ( A` and `A → y`, and between them rules for a non-terminal that no sentence has. If
there are so many of these that the production of `A` begins with key 0, the construction takes
`A → . y` for `^ → . S`. The table has no conflicts, but it is not the table of this grammar.

Main statement: `Grammar.crowded_table`.
-/

namespace ShiftReduce

namespace Grammar

/-- The rules `S → x`, `S → ( A` and `A → y`, and before the last of them, for a non-terminal that
no sentence has, a rule of `n` symbols and `m` rules of one symbol. -/
def crowded (n m : Nat) : Grammar where
  name := none
  symbols := ⟨SymbolTable.initial.entries ++
    [⟨.nonterminal, "S"⟩, ⟨.nonterminal, "U"⟩, ⟨.nonterminal, "A"⟩, ⟨.terminal, "("⟩,
      ⟨.terminal, "x"⟩, ⟨.terminal, "y"⟩, ⟨.terminal, "u"⟩]⟩
  rules := [.plain 0 2 [6], .plain 1 2 [5, 4], .plain 2 3 (.replicate n 3)] ++
    (List.range' 3 m).map (fun id => .plain id 3 [8]) ++ [.plain (m + 3) 4 [7]]
  levels := []
  target := some 2

/-- The rules that no sentence needs, and the one behind them. -/
def crowd (n m : Nat) : Crowd := ⟨2, 3, 4, 8, 7, n, m⟩

lemma hasCrowd_crowded (n m : Nat) :
    (crowded n m).HasCrowd (crowd n m) (.plain 0 2 [6]) (.plain 1 2 [5, 4]) where
  accepts := rfl
  rules := rfl
  first := ⟨rfl, rfl⟩
  second := ⟨rfl, rfl⟩
  nonterminals := (by decide : ∀ s ∈ [2, 3, 4], (crowded 0 0).symbols.isNonterminal s = true)
  terminals := (by decide : ∀ s ∈ [8, 7], (crowded 0 0).symbols.isTerminal s = true)
  nodup := (by decide : [2, 3, 4].Nodup)
  epsilon_notMem := (by decide : SymbolId.epsilon ∉ [3, 8, 7])

variable {n m : Nat}

lemma forall_mem_crowded {P : Rule → Prop} (h₀ : P (.plain 0 2 [6])) (h₁ : P (.plain 1 2 [5, 4]))
    (h₂ : P (.plain 2 3 (.replicate n 3))) (hu : ∀ id, P (.plain id 3 [8]))
    (hlast : P (.plain (m + 3) 4 [7])) : ∀ r ∈ (crowded n m).rules, P r :=
  (hasCrowd_crowded n m).forall_mem h₀ h₁ h₂ hu hlast

lemma valid_crowded (hn : n ≠ 0) : (crowded n m).Valid :=
  (hasCrowd_crowded n m).valid hn ⟨_, rfl⟩
    (by decide : [6] ≠ [] ∧ ∀ s ∈ [6], (crowded 0 0).symbols.contains s = true)
    (by decide : [5, 4] ≠ [] ∧ ∀ s ∈ [5, 4], (crowded 0 0).symbols.contains s = true)

lemma two_lt_of_mem_clause : ∀ r ∈ (crowded n m).rules, ∀ s ∈ r.clause, 2 < s := by
  refine forall_mem_crowded ?_ ?_ (fun s hs => ?_) (fun _ => ?_) ?_
  · decide
  · decide
  · rw [List.eq_of_mem_replicate hs]
    decide
  · exact List.forall_mem_singleton.mpr (by decide)
  · exact List.forall_mem_singleton.mpr (by decide)

lemma crowded_derives (n m : Nat) : (crowded n m).Derives [2] [5, 7] := by
  have hopen : (crowded n m).Rewrites [2] [5, 4] :=
    .expand [] [] (r := .plain 1 2 [5, 4]) (by simp [crowded])
  have hlast : (crowded n m).Rewrites [5, 4] [5, 7] :=
    .expand [5] [] (r := .plain (m + 3) 4 [7]) (by simp [crowded])
  exact .head hopen (.single hlast)

lemma crowded_inheritLevels (n m : Nat) : (crowded n m).inheritLevels = crowded n m :=
  inheritLevels_of_no_levels rfl (forall_mem_crowded rfl rfl rfl (fun _ => rfl) rfl)

/-- The productions of the first symbol. -/
def usable : List Production :=
  [⟨9, [.nonterminal 2], none⟩, ⟨2, [.terminal 6], some 0⟩,
    ⟨2, [.terminal 5, .nonterminal 4], some 1⟩]

/-- The productions of a non-terminal that no sentence has. -/
def idle (n m : Nat) : List Production :=
  ⟨3, .replicate n (.nonterminal 3), some 2⟩ ::
    (List.range' 3 m).map fun id => ⟨3, [.terminal 8], some id⟩

lemma crowded_productions (hn : n ≠ 0) : ((crowded n m).productions 2).list.toList =
    usable ++ idle n m ++ [⟨4, [.terminal 7], some (m + 3)⟩] :=
  (hasCrowd_crowded n m).productions hn

lemma crowded_get? (hn : n ≠ 0) :
    ((crowded n m).productions 2).get? 0 = some ⟨9, [.nonterminal 2], none⟩ ∧
    ((crowded n m).productions 2).get? 1 = some ⟨2, [.terminal 6], some 0⟩ ∧
    ((crowded n m).productions 2).get? 2 = some ⟨2, [.terminal 5, .nonterminal 4], some 1⟩ ∧
    ((crowded n m).productions 2).get? 3 = some ⟨3, .replicate n (.nonterminal 3), some 2⟩ := by
  simp only [Productions.get?, ← Array.getElem?_toList, crowded_productions hn]
  exact ⟨rfl, rfl, rfl, rfl⟩

lemma idle_bounds : ∀ prod ∈ idle n m, prod.lhs = 3 ∧ prod.rhs.length ≤ max n 1 :=
  Crowd.bounds_productions (c := crowd n m)

lemma crowded_stride (hn : 2 ≤ n) : ((crowded n m).productions 2).stride = n + 1 := by
  have hfront : ∀ prod ∈ usable, prod.rhs.length ≤ 2 := by decide
  exact (hasCrowd_crowded n m).stride (Nat.le_of_succ_le hn)
    fun prod hprod => (hfront prod hprod).trans hn

lemma crowded_range_start (hn : n ≠ 0) : ((crowded n m).productions 2).range 2 = [1, 2] :=
  (hasCrowd_crowded n m).range_start hn

lemma crowded_range_last (hn : n ≠ 0) : ((crowded n m).productions 2).range 4 = [m + 4] :=
  (hasCrowd_crowded n m).range_last hn

/-! ## Kernels -/

section Kernels

variable (hn : n ≠ 0)

include hn

lemma crowded_rest : ((crowded n m).productions 2).rest ⟨0, 0⟩ = [.nonterminal 2] ∧
    ((crowded n m).productions 2).rest ⟨1, 0⟩ = [.terminal 6] ∧
    ((crowded n m).productions 2).rest ⟨2, 0⟩ = [.terminal 5, .nonterminal 4] ∧
    ((crowded n m).productions 2).rest ⟨2, 1⟩ = [.nonterminal 4] ∧
    ((crowded n m).productions 2).rest ⟨m + 4, 0⟩ = [.terminal 7] := by
  obtain ⟨h₀, h₁, h₂, -⟩ := crowded_get? (m := m) hn
  have hlast := (hasCrowd_crowded n m).get?_last hn
  exact ⟨Productions.rest_eq (i := ⟨0, 0⟩) h₀, Productions.rest_eq (i := ⟨1, 0⟩) h₁,
    Productions.rest_eq (i := ⟨2, 0⟩) h₂, Productions.rest_eq (i := ⟨2, 1⟩) h₂,
    Productions.rest_eq (i := ⟨m + 4, 0⟩) hlast⟩

lemma crowded_opening {s : SymbolId} {i : Dotted} :
    ((crowded n m).productions 2).Opening s i ↔
      i.dot = 0 ∧ i.production ∈ ((crowded n m).productions 2).range s := by
  have hps := (valid_crowded (m := m) hn).proper_productions rfl
  rw [Productions.Opening, hps.mem_range]

/-- At the start the rules of `S` are called for, and nothing else. -/
lemma crowded_closure_start : ((crowded n m).productions 2).closure {Dotted.start} =
    {⟨0, 0⟩, ⟨1, 0⟩, ⟨2, 0⟩} := by
  obtain ⟨h₀, h₁, h₂, -⟩ := crowded_rest (m := m) hn
  have hstart : ⟨0, 0⟩ ∈ ((crowded n m).productions 2).closure {Dotted.start} :=
    Productions.subset_closure _ rfl
  refine Productions.closure_eq_of_subset ?_ (by simp [Dotted.start]) ?_
  · have hopen : ∀ p ∈ [1, 2], ⟨p, 0⟩ ∈ ((crowded n m).productions 2).closure {Dotted.start} :=
      fun p hp => Productions.mem_closure_opening hstart h₀
        ((crowded_opening hn).mpr ⟨rfl, crowded_range_start hn ▸ hp⟩)
    rintro i (rfl | rfl | rfl)
    · exact hstart
    · exact hopen 1 (by simp)
    · exact hopen 2 (by simp)
  · rintro i (rfl | rfl | rfl) s β hrest ⟨p, d⟩ hj
    · rw [h₀] at hrest
      cases hrest
      rw [crowded_opening hn, crowded_range_start hn] at hj
      simp_all
    · simp [h₁] at hrest
    · simp [h₂] at hrest

/-- Behind `(` the rule of `A` is called for, and nothing else. -/
lemma crowded_closure_open : ((crowded n m).productions 2).closure {⟨2, 1⟩} =
    {⟨2, 1⟩, ⟨m + 4, 0⟩} := by
  obtain ⟨-, -, -, hopen, hlast⟩ := crowded_rest (m := m) hn
  have hkernel : ⟨2, 1⟩ ∈ ((crowded n m).productions 2).closure {⟨2, 1⟩} :=
    Productions.subset_closure _ rfl
  refine Productions.closure_eq_of_subset ?_ (by simp) ?_
  · rintro i (rfl | rfl)
    · exact hkernel
    · exact Productions.mem_closure_opening hkernel hopen
        ((crowded_opening hn).mpr ⟨rfl, by simp [crowded_range_last hn]⟩)
  · rintro i (rfl | rfl) s β hrest ⟨p, d⟩ hj
    · rw [hopen] at hrest
      cases hrest
      rw [crowded_opening hn, crowded_range_last hn] at hj
      simp_all
    · simp [hlast] at hrest

/-- The kernels entered over `S`, and over `(` and then `y`. -/
lemma crowded_reachableKernel : ((crowded n m).productions 2).ReachableKernel {⟨0, 1⟩} ∧
    ((crowded n m).productions 2).ReachableKernel {⟨m + 4, 1⟩} := by
  obtain ⟨h₀, h₁, h₂, hopen, hlast⟩ := crowded_rest (m := m) hn
  have hstart : ∀ {K part}, ((crowded n m).productions 2).goto {⟨0, 0⟩, ⟨1, 0⟩, ⟨2, 0⟩} part = K →
      K.Nonempty → ((crowded n m).productions 2).ReachableKernel K := by
    rintro K part rfl hne
    rw [← crowded_closure_start hn] at hne ⊢
    exact .goto .start hne
  have hfirst : ((crowded n m).productions 2).ReachableKernel {⟨0, 1⟩} :=
    hstart (Productions.goto_eq_singleton (i := ⟨0, 0⟩) (by simp) h₀ (by simp [h₁, h₂]))
      (Set.singleton_nonempty _)
  have hbehind : ((crowded n m).productions 2).ReachableKernel {⟨2, 1⟩} :=
    hstart (Productions.goto_eq_singleton (i := ⟨2, 0⟩) (by simp) h₂ (by simp [h₀, h₁]))
      (Set.singleton_nonempty _)
  have hgoto : ((crowded n m).productions 2).goto
      (((crowded n m).productions 2).closure {⟨2, 1⟩}) (.terminal 7) = {⟨m + 4, 1⟩} := by
    rw [crowded_closure_open hn]
    exact Productions.goto_eq_singleton (i := ⟨m + 4, 0⟩) (by simp) hlast (by simp [hopen])
  exact ⟨hfirst, hgoto ▸ .goto hbehind (hgoto ▸ Set.singleton_nonempty _)⟩

end Kernels

lemma untilStable_of_step {α : Type} [DecidableEq α] {step : α → α} {x y : α} (hx : step x = y)
    (hy : step y = y) (fuel : Nat) : untilStable step (fuel + 2) x = y := by
  rw [untilStable]
  split
  · next h => exact h.symm.trans hx
  · rw [hx, untilStable, if_pos hy]

/-- The keys of the productions of the first symbol fit in a word, but the last production begins
with the key of the first. -/
structure Wraps (n m : Nat) : Prop where
  two_le : 2 ≤ n
  fits : 3 * (n + 1) ≤ wordRange
  wraps : (m + 4) * (n + 1) % wordRange = 0

/-- What the table of this grammar is built on. -/
def crowdedBasis (n m : Nat) : Basis := ((crowded n m).productions 2).basis

section Wrapped

variable (h : Wraps n m) {p q d e : Nat}
include h

lemma crowded_dotted (hp : p ≤ 2) (hd : d ≤ 2) :
    (crowdedBasis n m).dotted ((crowdedBasis n m).key p d) = ⟨p, d⟩ := by
  have hn := h.two_le
  have hmul := Nat.mul_le_mul_right (n + 1) hp
  have hfits := h.fits
  refine Productions.dotted_key_of_lt ?_ ?_
  · rw [crowded_stride hn]
    omega
  · rw [crowded_stride hn]
    omega

lemma crowded_key_inj (hp : p ≤ 2) (hd : d ≤ 2) (hq : q ≤ 2) (he : e ≤ 2) :
    (crowdedBasis n m).key p d = (crowdedBasis n m).key q e ↔ p = q ∧ d = e := by
  constructor
  · intro heq
    have hdotted := crowded_dotted h hp hd
    rw [heq, crowded_dotted h hq he, Dotted.mk.injEq] at hdotted
    exact ⟨hdotted.1.symm, hdotted.2.symm⟩
  · rintro ⟨rfl, rfl⟩
    rfl

lemma crowded_advance (hp : p ≤ 2) (hd : d ≤ 2) (l : TerminalSet) :
    (crowdedBasis n m).advance ⟨(crowdedBasis n m).key p d, l⟩ =
      ⟨(crowdedBasis n m).key p (d + 1), l⟩ := by
  have hdotted := crowded_dotted h hp hd
  rw [Basis.dotted, Dotted.mk.injEq] at hdotted
  rw [Basis.advance, hdotted.1, hdotted.2]

lemma crowded_production (hp : p ≤ 2) (hd : d ≤ 2) :
    (crowdedBasis n m).production ((crowdedBasis n m).key p d) = usable.getD p default := by
  have hn := h.two_le
  have hget : ((crowded n m).productions 2).get? p = some (usable.getD p default) := by
    obtain ⟨h₀, h₁, h₂, -⟩ := crowded_get? (n := n) (m := m) (by omega)
    match p, hp with
    | 0, _ => exact h₀
    | 1, _ => exact h₁
    | 2, _ => exact h₂
  have hdotted := crowded_dotted h hp hd
  exact Productions.production_eq ((congrArg _ (congrArg _ hdotted)).trans hget)

lemma crowded_remaining (hp : p ≤ 2) (hd : d ≤ 2) :
    (crowdedBasis n m).remaining ((crowdedBasis n m).key p d) =
      (usable.getD p default).rhs.drop d := by
  have hdotted := crowded_dotted h hp hd
  rw [Basis.dotted, Dotted.mk.injEq] at hdotted
  rw [Basis.remaining, crowded_production h hp hd, hdotted.2]

lemma crowded_demand (hp : p ≤ 2) (hd : d ≤ 2) (l : TerminalSet) :
    (crowdedBasis n m).demand? ⟨(crowdedBasis n m).key p d, l⟩ =
      if p = 0 ∧ d = 0 then some (2, l) else if p = 2 ∧ d = 1 then some (4, l) else none := by
  have hahead : ∀ f : FirstSets, f.ahead [] l = l := by
    simp [FirstSets.ahead, FirstSets.ofParts, FirstSet.followedBy, TerminalSet.union,
      TerminalSet.empty]
  have hp : p = 0 ∨ p = 1 ∨ p = 2 := by omega
  have hd : d = 0 ∨ d = 1 ∨ d = 2 := by omega
  rw [Basis.demand?, crowded_remaining h (by omega) (by omega)]
  rcases hp with rfl | rfl | rfl <;> rcases hd with rfl | rfl | rfl <;> simp [usable, hahead]

lemma crowded_openings_start (l : TerminalSet) : (crowdedBasis n m).openings 2 l =
    [⟨(crowdedBasis n m).key 1 0, l⟩, ⟨(crowdedBasis n m).key 2 0, l⟩] := by
  have hn := h.two_le
  have hrange : (crowdedBasis n m).productions.range 2 = [1, 2] := crowded_range_start (by omega)
  rw [Basis.openings, hrange]
  rfl

/-- The items of the last production have the keys of those of the first. -/
lemma crowded_key_last (d : Nat) :
    (crowdedBasis n m).key (m + 4) d = (crowdedBasis n m).key 0 d := by
  show ((m + 4) * ((crowded n m).productions 2).stride + d) % wordRange = _
  rw [crowded_stride h.two_le, Nat.add_mod, h.wraps]
  simp [Basis.key]

/-- The last symbol seems to open with the start item. -/
lemma crowded_openings_last (l : TerminalSet) : (crowdedBasis n m).openings 4 l =
    [⟨(crowdedBasis n m).key 0 0, l⟩] := by
  have hn := h.two_le
  have hrange : (crowdedBasis n m).productions.range 4 = [m + 4] := crowded_range_last (by omega)
  rw [Basis.openings, hrange, List.map_singleton, crowded_key_last h]

/-! ## The automaton -/

lemma crowded_close_start (l : TerminalSet) :
    (State.ofKernel [⟨(crowdedBasis n m).key 0 0, l⟩]).close (crowdedBasis n m) =
      ⟨[⟨(crowdedBasis n m).key 0 0, l⟩], [(2, l)], []⟩ := by
  have hwidth : (crowdedBasis n m).productions.width = 9 := rfl
  refine untilStable_of_step ?_ ?_ _
  · simp [State.spread, State.ofKernel, hwidth, State.sweep, State.meet, crowded_demand h,
      raise, crowded_openings_start h]
  · simp [State.spread, hwidth, State.sweep, State.meet, crowded_demand h,
      raise, crowded_openings_start h, TerminalSet.union]

lemma crowded_close_open (l : TerminalSet) :
    (State.ofKernel [⟨(crowdedBasis n m).key 2 1, l⟩]).close (crowdedBasis n m) =
      ⟨[⟨(crowdedBasis n m).key 2 1, l⟩], [(4, l), (2, l)], []⟩ := by
  have hwidth : (crowdedBasis n m).productions.width = 9 := rfl
  refine untilStable_of_step ?_ ?_ _
  · simp [State.spread, State.ofKernel, hwidth, State.sweep, State.meet, crowded_demand h,
      raise, crowded_openings_start h, crowded_openings_last h]
  · simp [State.spread, hwidth, State.sweep, State.meet, crowded_demand h,
      raise, crowded_openings_start h, crowded_openings_last h, TerminalSet.union]

omit h in
lemma crowded_close_end {l : TerminalSet}
    (hend : (crowdedBasis n m).demand? ⟨(crowdedBasis n m).key p d, l⟩ = none) :
    (State.ofKernel [⟨(crowdedBasis n m).key p d, l⟩]).close (crowdedBasis n m) =
      State.ofKernel [⟨(crowdedBasis n m).key p d, l⟩] := by
  have hspread : (State.ofKernel [⟨(crowdedBasis n m).key p d, l⟩]).spread (crowdedBasis n m) =
      State.ofKernel [⟨(crowdedBasis n m).key p d, l⟩] := by
    simp [State.spread, State.ofKernel, State.sweep, State.meet, hend]
  exact untilStable_of_step hspread hspread _

lemma crowded_successors_start (l : TerminalSet) :
    State.successors (crowdedBasis n m) ⟨[⟨(crowdedBasis n m).key 0 0, l⟩], [(2, l)], []⟩ =
      [(.nonterminal 2, [⟨(crowdedBasis n m).key 0 1, l⟩]),
        (.terminal 6, [⟨(crowdedBasis n m).key 1 1, l⟩]),
        (.terminal 5, [⟨(crowdedBasis n m).key 2 1, l⟩])] := by
  simp [State.successors, State.items, crowded_openings_start h, crowded_remaining h, usable,
    State.addToGroup, crowded_advance h, Item.sort, Item.insert]

lemma crowded_successors_open (l : TerminalSet) :
    State.successors (crowdedBasis n m) ⟨[⟨(crowdedBasis n m).key 2 1, l⟩], [(4, l), (2, l)], []⟩ =
      [(.nonterminal 4, [⟨(crowdedBasis n m).key 2 2, l⟩]),
        (.nonterminal 2, [⟨(crowdedBasis n m).key 0 1, l⟩]),
        (.terminal 6, [⟨(crowdedBasis n m).key 1 1, l⟩]),
        (.terminal 5, [⟨(crowdedBasis n m).key 2 1, l⟩])] := by
  simp [State.successors, State.items, crowded_openings_start h, crowded_openings_last h,
    crowded_remaining h, usable, State.addToGroup, crowded_advance h, Item.sort, Item.insert]

/-- A state without anything after the dot is left as it is. -/
lemma crowded_visit_end (hp : p ≤ 2) (hd : d ≤ 2) {l : TerminalSet}
    (hend : (usable.getD p default).rhs.drop d = []) {s : Discovery} {i : Nat}
    (hi : s.states[i]? = some (State.ofKernel [⟨(crowdedBasis n m).key p d, l⟩])) :
    s.visit (crowdedBasis n m) i = s := by
  have hremaining := (crowded_remaining h hp hd).trans hend
  have hclose := crowded_close_end (l := l) (by rw [Basis.demand?, hremaining])
  have hsuccessors : State.successors (crowdedBasis n m)
      (State.ofKernel [⟨(crowdedBasis n m).key p d, l⟩]) = [] := by
    simp only [State.successors, State.items, State.ofKernel, List.flatMap_nil, List.append_nil,
      List.foldl_cons, List.foldl_nil, hremaining, List.map_nil]
  obtain ⟨hlt, hget⟩ := List.getElem?_eq_some_iff.mp hi
  simp only [Discovery.visit, hi, hclose, hsuccessors, List.foldl_nil]
  rw [← hget, List.set_getElem_self]

/-- The start state, whose transitions over `S`, `x` and `(` lead to the next three. -/
def startState (n m : Nat) (l : TerminalSet) : State :=
  ⟨[⟨(crowdedBasis n m).key 0 0, l⟩], [(2, l)],
    [(.nonterminal 2, 1), (.terminal 6, 2), (.terminal 5, 3)]⟩

/-- The state entered over `(`, in which `A` is taken to open with `^ → . S`. -/
def openState (n m : Nat) (l : TerminalSet) : State :=
  ⟨[⟨(crowdedBasis n m).key 2 1, l⟩], [(4, l), (2, l)],
    [(.nonterminal 4, 4), (.nonterminal 2, 1), (.terminal 6, 2), (.terminal 5, 3)]⟩

lemma crowded_visit_start (l : TerminalSet) :
    Discovery.visit (crowdedBasis n m) ⟨[State.ofKernel [⟨(crowdedBasis n m).key 0 0, l⟩]], []⟩ 0 =
      ⟨[startState n m l, State.ofKernel [⟨(crowdedBasis n m).key 0 1, l⟩],
        State.ofKernel [⟨(crowdedBasis n m).key 1 1, l⟩],
        State.ofKernel [⟨(crowdedBasis n m).key 2 1, l⟩]], [1, 2, 3]⟩ := by
  simp only [Discovery.visit, List.getElem?_cons_zero, crowded_close_start h,
    crowded_successors_start h]
  simp [Discovery.follow, Discovery.enter, State.ofKernel, State.core, List.findIdx?_cons,
    crowded_key_inj h, State.setTarget, startState]

lemma crowded_visit_open (l : TerminalSet) :
    Discovery.visit (crowdedBasis n m)
      ⟨[startState n m l, State.ofKernel [⟨(crowdedBasis n m).key 0 1, l⟩],
        State.ofKernel [⟨(crowdedBasis n m).key 1 1, l⟩],
        State.ofKernel [⟨(crowdedBasis n m).key 2 1, l⟩]], []⟩ 3 =
      ⟨[startState n m l, State.ofKernel [⟨(crowdedBasis n m).key 0 1, l⟩],
        State.ofKernel [⟨(crowdedBasis n m).key 1 1, l⟩], openState n m l,
        State.ofKernel [⟨(crowdedBasis n m).key 2 2, l⟩]], [4]⟩ := by
  simp only [Discovery.visit, List.getElem?_cons_succ, List.getElem?_cons_zero,
    crowded_close_open h, crowded_successors_open h]
  simp [Discovery.follow, Discovery.enter, State.ofKernel, State.core, List.findIdx?_cons,
    crowded_key_inj h, State.setTarget, State.merge, TerminalSet.union, startState, openState]

lemma crowded_automaton (l : TerminalSet) (hl : l = .singleton SymbolId.eoi) :
    (crowdedBasis n m).automaton = ⟨crowdedBasis n m,
      [startState n m l, State.ofKernel [⟨(crowdedBasis n m).key 0 1, l⟩],
        State.ofKernel [⟨(crowdedBasis n m).key 1 1, l⟩], openState n m l,
        State.ofKernel [⟨(crowdedBasis n m).key 2 2, l⟩]]⟩ := by
  have hn := h.two_le
  have hbound : 9 ≤ (crowdedBasis n m).visitBound :=
    (hasCrowd_crowded n m).visitBound (by omega : n ≠ 0)
  obtain ⟨fuel, hfuel⟩ := Nat.exists_eq_add_of_le' ((by decide : 6 ≤ 9).trans hbound)
  rw [Basis.automaton, hfuel, Basis.startKernel, ← hl]
  simp only [Discovery.run]
  rw [crowded_visit_start h]
  simp only []
  rw [crowded_visit_end h (p := 0) (d := 1) (by decide) (by decide) rfl rfl]
  simp only []
  rw [crowded_visit_end h (p := 1) (d := 1) (by decide) (by decide) rfl rfl]
  simp only []
  rw [crowded_visit_open h]
  simp only []
  rw [crowded_visit_end h (p := 2) (d := 2) (by decide) (by decide) rfl rfl]

omit h in
lemma crowded_validate (n m : Nat) : (crowded n m).validate = .ok () :=
  (hasCrowd_crowded n m).validate (by decide : ∀ s < (crowded 0 0).symbols.size,
    (crowded 0 0).symbols.isNonterminal s = true → s ∈ [2, 3, 4])

omit h in
lemma automaton_crowded (n m : Nat) :
    (crowded n m).automaton = .ok (crowdedBasis n m).automaton := by
  have htarget : (crowded n m).target = some 2 := rfl
  simp only [automaton, crowded_validate, htarget]
  rfl

lemma crowded_items_start (l : TerminalSet) : (startState n m l).items (crowdedBasis n m) =
    [⟨(crowdedBasis n m).key 0 0, l⟩, ⟨(crowdedBasis n m).key 1 0, l⟩,
      ⟨(crowdedBasis n m).key 2 0, l⟩] := by
  simp [startState, State.items, crowded_openings_start h]

lemma crowded_items_open (l : TerminalSet) : (openState n m l).items (crowdedBasis n m) =
    [⟨(crowdedBasis n m).key 2 1, l⟩, ⟨(crowdedBasis n m).key 0 0, l⟩,
      ⟨(crowdedBasis n m).key 1 0, l⟩, ⟨(crowdedBasis n m).key 2 0, l⟩] := by
  simp [openState, State.items, crowded_openings_start h, crowded_openings_last h]

lemma crowded_row_start (i : StateId) (l : TerminalSet) :
    Row.ofState (crowded n m) (crowdedBasis n m) i (startState n m l) =
      ⟨[none, none, none, none, none, some (.shift 3), some (.shift 2), none, none],
        [none, none, some 1, none, none, none, none, none, none], []⟩ := by
  simp only [Row.ofState, crowded_items_start h, List.foldl_cons, List.foldl_nil, Row.addItem,
    crowded_remaining h (p := 0) (d := 0) (by decide) (by decide),
    crowded_remaining h (p := 1) (d := 0) (by decide) (by decide),
    crowded_remaining h (p := 2) (d := 0) (by decide) (by decide)]
  rfl

lemma crowded_row_open (i : StateId) (l : TerminalSet) :
    Row.ofState (crowded n m) (crowdedBasis n m) i (openState n m l) =
      ⟨[none, none, none, none, none, some (.shift 3), some (.shift 2), none, none],
        [none, none, some 1, none, some 4, none, none, none, none], []⟩ := by
  simp only [Row.ofState, crowded_items_open h, List.foldl_cons, List.foldl_nil, Row.addItem,
    crowded_remaining h (p := 0) (d := 0) (by decide) (by decide),
    crowded_remaining h (p := 1) (d := 0) (by decide) (by decide),
    crowded_remaining h (p := 2) (d := 0) (by decide) (by decide),
    crowded_remaining h (p := 2) (d := 1) (by decide) (by decide)]
  rfl

lemma crowded_row_end (hp : p ≤ 2) (hd : d ≤ 2) (hend : (usable.getD p default).rhs.drop d = [])
    (hrhs : (usable.getD p default).rhs.isEmpty = false) (i : StateId) :
    Row.ofState (crowded n m) (crowdedBasis n m) i
        (State.ofKernel [⟨(crowdedBasis n m).key p d, .singleton SymbolId.eoi⟩]) =
      ⟨some (match (usable.getD p default).rule with
          | none => .accept
          | some rule => .reduce rule) :: List.replicate 8 none, List.replicate 9 none, []⟩ := by
  have hitems : (State.ofKernel [⟨(crowdedBasis n m).key p d, .singleton SymbolId.eoi⟩]).items
      (crowdedBasis n m) = [⟨(crowdedBasis n m).key p d, .singleton SymbolId.eoi⟩] := rfl
  have hlist : (TerminalSet.singleton SymbolId.eoi).toList = [0] := by decide
  simp only [Row.ofState, hitems, List.foldl_cons, List.foldl_nil, Row.addItem,
    crowded_remaining h hp hd, crowded_production h hp hd, hend, hrhs, hlist]
  cases (usable.getD p default).rule <;> rfl

/-- The table of the grammar: no state shifts `y`, and after `(` a sentence may be accepted. -/
def crowdedTable (n m : Nat) : ActionTable where
  fingerprint := (crowded n m).fingerprint
  width := 9
  actions :=
    [[none, none, none, none, none, some (.shift 3), some (.shift 2), none, none],
      some .accept :: .replicate 8 none, some (.reduce 0) :: .replicate 8 none,
      [none, none, none, none, none, some (.shift 3), some (.shift 2), none, none],
      some (.reduce 1) :: .replicate 8 none]
  gotos :=
    [[none, none, some 1, none, none, none, none, none, none], .replicate 9 none,
      .replicate 9 none, [none, none, some 1, none, some 4, none, none, none, none],
      .replicate 9 none]
  expected := [[5, 6], [0], [0], [5, 6], [0]]
  conflicts := []

lemma crowded_table : (crowded n m).table = .ok (crowdedTable n m) := by
  rw [table, automaton_crowded, crowded_automaton h _ rfl, Except.map, Automaton.table]
  simp only [List.mapIdx_cons, List.mapIdx_nil, crowded_row_start h, crowded_row_open h,
    crowded_row_end h (p := 0) (d := 1) (by decide) (by decide) rfl rfl,
    crowded_row_end h (p := 1) (d := 1) (by decide) (by decide) rfl rfl,
    crowded_row_end h (p := 2) (d := 2) (by decide) (by decide) rfl rfl]
  rfl

lemma parser_crowded : (crowded n m).parser = .ok ⟨crowded n m, crowdedTable n m⟩ := by
  rw [parser, crowded_inheritLevels]
  simp only [crowded_table h]
  rfl

end Wrapped

/-- A clause of just under 2^20 symbols and 4092 short ones, so that the production of `A` is the
one of number 2^12. -/
def overfull : Grammar := crowded 1048575 4092

lemma wraps_overfull : Wraps 1048575 4092 := ⟨by decide, by decide, by decide⟩

end Grammar

end ShiftReduce
