import ShiftReduce.Automaton.State
import ShiftReduce.Proofs.Automaton.Item
/-!
# The closure of a state

A closure only grows while demands are met, so a round that ends where it began has found every
demand met already; and there is a last round, since there are finitely many symbols to add and
terminals to add to each. What is added is demanded by some item, so it has every property that
demands hand on.

Main statements: `State.closed_close` and `State.close_induction`.
-/

namespace ShiftReduce

/-- The second closure has the entries of the first, with sets that are no smaller, and perhaps
more entries after them. -/
inductive Grows : List (SymbolId × TerminalSet) → List (SymbolId × TerminalSet) → Prop
  | nil {d : List (SymbolId × TerminalSet)} : Grows [] d
  | cons {s : SymbolId} {a b : TerminalSet} {c d : List (SymbolId × TerminalSet)} :
      (∀ t ∈ a, t ∈ b) → Grows c d → Grows ((s, a) :: c) ((s, b) :: d)

namespace Grows

variable {c d e : List (SymbolId × TerminalSet)}

lemma refl (c : List (SymbolId × TerminalSet)) : Grows c c := by
  induction c with
  | nil => exact .nil
  | cons x c ih => exact .cons (fun _ h => h) ih

lemma trans (h₁ : Grows c d) (h₂ : Grows d e) : Grows c e := by
  induction h₁ generalizing e with
  | nil => exact .nil
  | cons hab _ ih =>
    cases h₂ with
    | cons hbc h => exact .cons (fun t ht => hbc t (hab t ht)) (ih h)

lemma antisymm (h₁ : Grows c d) (h₂ : Grows d c) : c = d := by
  induction h₁ with
  | nil =>
    cases h₂
    rfl
  | cons hab _ ih =>
    cases h₂ with
    | cons hba h =>
      rw [ih h, TerminalSet.ext_mem fun t => ⟨hab t, hba t⟩]

end Grows

/-- The demand is met: its symbol is in the closure, with a set no smaller. -/
def Met (closure : List (SymbolId × TerminalSet)) (demand : SymbolId × TerminalSet) : Prop :=
  ∃ set, (demand.1, set) ∈ closure ∧ ∀ t ∈ demand.2, t ∈ set

/-- Every item of the state finds its demand met. -/
def State.Closed (b : Basis) (st : State) : Prop :=
  ∀ item ∈ st.items b, ∀ demand, b.demand? item = some demand → Met st.closure demand

section Raise

variable {c c₁ c₂ d : List (SymbolId × TerminalSet)} {demand : SymbolId × TerminalSet}
  {s : SymbolId} {set old : TerminalSet}

lemma grows_raise (c : List (SymbolId × TerminalSet)) (demand : SymbolId × TerminalSet) :
    Grows c (raise c demand) := by
  induction c with
  | nil => exact .nil
  | cons x c ih =>
    rw [raise]
    split
    · exact .cons (fun t ht => TerminalSet.mem_union.mpr (.inl ht)) (.refl c)
    · exact .cons (fun _ h => h) ih

lemma met_of_raise_eq (h : raise c demand = c) : Met c demand := by
  induction c with
  | nil => simp [raise] at h
  | cons x c ih =>
    obtain ⟨s, set⟩ := x
    rw [raise] at h
    split at h
    · next hs =>
      simp only [List.cons.injEq, Prod.mk.injEq, true_and, and_true] at h
      refine ⟨set, ?_, fun t ht => ?_⟩
      · rw [← hs]
        exact List.mem_cons_self
      · rw [← h]
        exact TerminalSet.mem_union.mpr (.inr ht)
    · obtain ⟨set', hmem, hsub⟩ := ih (List.cons.inj h).2
      exact ⟨set', List.mem_cons_of_mem _ hmem, hsub⟩

lemma map_fst_raise (c : List (SymbolId × TerminalSet)) (demand : SymbolId × TerminalSet) :
    (raise c demand).map Prod.fst = if demand.1 ∈ c.map Prod.fst then c.map Prod.fst
      else c.map Prod.fst ++ [demand.1] := by
  induction c with
  | nil => simp [raise]
  | cons x c ih =>
    rw [raise]
    by_cases hs : x.1 = demand.1
    · simp [hs]
    · simp only [hs, if_false, List.map_cons, ih, List.mem_cons]
      have hs' : ¬ demand.1 = x.1 := fun h => hs h.symm
      simp only [hs', false_or]
      split <;> simp

lemma nodup_raise (h : (c.map Prod.fst).Nodup) : ((raise c demand).map Prod.fst).Nodup := by
  rw [map_fst_raise]
  split
  · exact h
  · next hnot => exact List.nodup_append.mpr ⟨h, List.nodup_singleton _, by aesop⟩

lemma nodup_foldl_raise (demands : List (SymbolId × TerminalSet)) (h : (c.map Prod.fst).Nodup) :
    ((demands.foldl raise c).map Prod.fst).Nodup := by
  induction demands generalizing c with
  | nil => exact h
  | cons d demands ih => exact ih (nodup_raise h)

lemma grows_foldl_raise (demands : List (SymbolId × TerminalSet)) :
    Grows c (demands.foldl raise c) := by
  induction demands generalizing c with
  | nil => exact .refl c
  | cons d demands ih => exact (grows_raise c d).trans ih

lemma raise_eq_of_foldl_eq {demands : List (SymbolId × TerminalSet)}
    (h : demands.foldl raise c = c) : ∀ d ∈ demands, raise c d = c := by
  induction demands with
  | nil => simp
  | cons d demands ih =>
    rw [List.foldl_cons] at h
    have hd : raise c d = c := by
      have hgrows := grows_foldl_raise (c := raise c d) demands
      rw [h] at hgrows
      exact hgrows.antisymm (grows_raise c d)
    rw [hd] at h
    intro e he
    rcases List.mem_cons.mp he with rfl | he
    · exact hd
    · exact ih h e he

/-- The first entry of a symbol. -/
lemma exists_split (hs : s ∈ c.map Prod.fst) :
    ∃ c₁ old c₂, c = c₁ ++ (s, old) :: c₂ ∧ s ∉ c₁.map Prod.fst := by
  obtain ⟨before, after, hsplit, hnot⟩ := List.eq_append_cons_of_mem hs
  obtain ⟨c₁, c', rfl, rfl, hc'⟩ := List.map_eq_append_iff.mp hsplit
  obtain ⟨⟨s', old⟩, c₂, rfl, hs', -⟩ := List.map_eq_cons_iff.mp hc'
  obtain rfl : s' = s := hs'
  exact ⟨c₁, old, c₂, rfl, hnot⟩

lemma raise_of_split (hnot : s ∉ c₁.map Prod.fst) :
    raise (c₁ ++ (s, old) :: c₂) (s, set) = c₁ ++ (s, old.union set) :: c₂ := by
  induction c₁ with
  | nil => simp [raise]
  | cons x c₁ ih =>
    rw [List.map_cons, List.mem_cons, not_or] at hnot
    rw [List.cons_append, raise, if_neg fun h => hnot.1 h.symm, ih hnot.2, List.cons_append]

lemma raise_of_notMem (hnot : s ∉ c.map Prod.fst) : raise c (s, set) = c ++ [(s, set)] := by
  induction c with
  | nil => rfl
  | cons x c ih =>
    rw [List.map_cons, List.mem_cons, not_or] at hnot
    rw [raise, if_neg fun h => hnot.1 h.symm, ih hnot.2, List.cons_append]

/-- A met demand stays met. -/
lemma Met.of_grows (h : Met c demand) (hgrows : Grows c d) : Met d demand := by
  obtain ⟨set, hset, hsub⟩ := h
  induction hgrows with
  | nil => cases hset
  | cons hab _ ih =>
    rcases List.mem_cons.mp hset with heq | hset
    · obtain ⟨rfl, rfl⟩ := Prod.mk.inj heq
      exact ⟨_, List.mem_cons_self, fun t ht => hab t (hsub t ht)⟩
    · obtain ⟨set', hset', hsub'⟩ := ih hset
      exact ⟨set', List.mem_cons_of_mem _ hset', hsub'⟩

/-- A demand is met where it has been raised. -/
lemma met_raise (c : List (SymbolId × TerminalSet)) (demand : SymbolId × TerminalSet) :
    Met (raise c demand) demand := by
  obtain ⟨s, set⟩ := demand
  by_cases hs : s ∈ c.map Prod.fst
  · obtain ⟨c₁, old, c₂, rfl, hnot⟩ := exists_split hs
    rw [raise_of_split hnot]
    exact ⟨_, List.mem_append_right _ List.mem_cons_self,
      fun t ht => TerminalSet.mem_union.mpr (.inr ht)⟩
  · rw [raise_of_notMem hs]
    exact ⟨set, List.mem_append_right _ List.mem_cons_self, fun _ ht => ht⟩

end Raise

namespace State

variable {b : Basis} {st : State} {c : List (SymbolId × TerminalSet)}

/-! ## The last round -/

lemma grows_meet (items : List Item) : Grows c (meet b items c) := grows_foldl_raise _

lemma met_of_meet_eq {items : List Item} (h : meet b items c = c) :
    ∀ item ∈ items, ∀ demand, b.demand? item = some demand → Met c demand := fun item hitem d hd =>
  met_of_raise_eq (raise_eq_of_foldl_eq h d (List.mem_filterMap.mpr ⟨item, hitem, hd⟩))

lemma grows_sweep (fuel i : Nat) : Grows c (sweep b fuel i c) := by
  induction fuel generalizing i c with
  | zero => exact .refl c
  | succ fuel ih =>
    rw [sweep]
    split
    · exact .refl c
    · exact (grows_meet _).trans (ih _)

lemma nodup_sweep (fuel i : Nat) (h : (c.map Prod.fst).Nodup) :
    ((sweep b fuel i c).map Prod.fst).Nodup := by
  induction fuel generalizing i c with
  | zero => exact h
  | succ fuel ih =>
    rw [sweep]
    split
    · exact h
    · exact ih _ (nodup_foldl_raise _ h)

/-- A sweep that changes nothing has found the demands of every entry met. -/
lemma meet_eq_of_sweep_eq {l : List (SymbolId × TerminalSet)} {fuel i : Nat}
    (h : sweep b fuel i l = l) {j : Nat} (hi : i ≤ j) (hj : j < i + fuel) {s : SymbolId}
    {set : TerminalSet} (hc : l[j]? = some (s, set)) : meet b (b.openings s set) l = l := by
  induction fuel generalizing i with
  | zero => omega
  | succ fuel ih =>
    rw [sweep] at h
    split at h
    · next hnone =>
      have := List.getElem?_eq_none_iff.mp hnone
      have := (List.getElem?_eq_some_iff.mp hc).1
      omega
    · next s' set' hsome =>
      -- the closure only grows, so it cannot have changed on the way to the end
      have hmeet : meet b (b.openings s' set') l = l := by
        have hgrows := grows_sweep (b := b) (c := meet b (b.openings s' set') l) fuel (i + 1)
        rw [h] at hgrows
        exact hgrows.antisymm (grows_meet _)
      rw [hmeet] at h
      by_cases hij : i = j
      · subst hij
        rw [hsome] at hc
        obtain ⟨rfl, rfl⟩ := Prod.mk.inj (Option.some.inj hc)
        exact hmeet
      · exact ih h (by omega) (by omega)

lemma grows_spread (b : Basis) (st : State) : Grows st.closure (spread b st).closure :=
  (grows_meet _).trans (grows_sweep _ _)

/-- If a round changes nothing, and has gone over the whole closure, all demands are met. -/
lemma closed_of_spread_eq (h : spread b st = st)
    (hlength : st.closure.length ≤ b.productions.width) : st.Closed b := by
  have hsweep : sweep b (b.productions.width + 1) 0 (meet b st.kernel st.closure) = st.closure :=
    congrArg State.closure h
  have hkernel : meet b st.kernel st.closure = st.closure := by
    have hgrows := grows_sweep (b := b) (c := meet b st.kernel st.closure)
      (b.productions.width + 1) 0
    rw [hsweep] at hgrows
    exact hgrows.antisymm (grows_meet _)
  rw [hkernel] at hsweep
  intro item hitem demand hdemand
  rcases List.mem_append.mp hitem with hitem | hitem
  · exact met_of_meet_eq hkernel item hitem demand hdemand
  · obtain ⟨⟨s, set⟩, hmem, hitem⟩ := List.mem_flatMap.mp hitem
    obtain ⟨j, hj⟩ := List.mem_iff_getElem?.mp hmem
    have hlt := (List.getElem?_eq_some_iff.mp hj).1
    exact met_of_meet_eq (meet_eq_of_sweep_eq hsweep (Nat.zero_le j) (by omega) hj)
      item hitem demand hdemand

/-! ## What demands hand on -/

section HandOn

variable {P : SymbolId → TerminalSet → Prop}
  (hunion : ∀ s a b, P s a → P s b → P s (a.union b))

include hunion

/-- What holds of a closure and of a demand holds when the demand has been raised. -/
lemma forall_mem_raise (hc : ∀ x ∈ c, P x.1 x.2) {demand : SymbolId × TerminalSet}
    (hdemand : P demand.1 demand.2) : ∀ x ∈ raise c demand, P x.1 x.2 := by
  induction c with
  | nil => simpa [raise] using hdemand
  | cons x c ih =>
    obtain ⟨hx, hc⟩ := List.forall_mem_cons.mp hc
    rw [raise]
    split
    · next hs =>
      refine List.forall_mem_cons.mpr ⟨hunion _ _ _ hx ?_, hc⟩
      rw [hs]
      exact hdemand
    · exact List.forall_mem_cons.mpr ⟨hx, ih hc⟩

lemma forall_mem_foldl_raise (hc : ∀ x ∈ c, P x.1 x.2) {demands : List (SymbolId × TerminalSet)}
    (hd : ∀ d ∈ demands, P d.1 d.2) : ∀ x ∈ demands.foldl raise c, P x.1 x.2 := by
  induction demands generalizing c with
  | nil => exact hc
  | cons d demands ih =>
    obtain ⟨hdemand, hd⟩ := List.forall_mem_cons.mp hd
    exact ih (forall_mem_raise hunion hc hdemand) hd

variable (hopenings : ∀ s set, P s set → ∀ item ∈ b.openings s set, ∀ d,
  b.demand? item = some d → P d.1 d.2)

include hopenings

lemma forall_mem_sweep (fuel i : Nat) (hc : ∀ x ∈ c, P x.1 x.2) :
    ∀ x ∈ sweep b fuel i c, P x.1 x.2 := by
  induction fuel generalizing i c with
  | zero => exact hc
  | succ fuel ih =>
    rw [sweep]
    split
    · exact hc
    · next s set hsome =>
      refine ih _ (forall_mem_foldl_raise hunion hc fun d hd => ?_)
      obtain ⟨item, hitem, hd⟩ := List.mem_filterMap.mp hd
      exact hopenings s set (hc _ (List.mem_of_getElem? hsome)) item hitem d hd

/-- What holds of the demands of the kernel, is handed on from an entry to the demands of its
items, and holds of a union of sets of which it holds, is true of a completed closure. -/
lemma close_induction (hkernel : ∀ item ∈ st.kernel, ∀ d, b.demand? item = some d → P d.1 d.2)
    (hst : ∀ x ∈ st.closure, P x.1 x.2) : ∀ x ∈ (st.close b).closure, P x.1 x.2 := by
  have h := @untilStable_induction _ _ (spread b)
    (fun st' => st'.kernel = st.kernel ∧ ∀ x ∈ st'.closure, P x.1 x.2) ?_
    ((b.productions.width + 1) * (b.productions.width + 1) + 1) st ⟨rfl, hst⟩
  · exact h.2
  · rintro st' ⟨hk, hc⟩
    refine ⟨hk, forall_mem_sweep hunion hopenings _ _ (forall_mem_foldl_raise hunion hc ?_)⟩
    intro d hd
    obtain ⟨item, hitem, hd⟩ := List.mem_filterMap.mp hd
    exact hkernel item (hk ▸ hitem) d hd

end HandOn

lemma kernel_transitions_close (b : Basis) (st : State) :
    (st.close b).kernel = st.kernel ∧ (st.close b).transitions = st.transitions :=
  @untilStable_induction _ _ (spread b)
    (fun st' => st'.kernel = st.kernel ∧ st'.transitions = st.transitions)
    (fun _ h => h) _ st ⟨rfl, rfl⟩

lemma kernel_close (b : Basis) (st : State) : (st.close b).kernel = st.kernel :=
  (kernel_transitions_close b st).1

lemma transitions_close (b : Basis) (st : State) : (st.close b).transitions = st.transitions :=
  (kernel_transitions_close b st).2

/-! ## There is a last round -/

/-- The closure has one entry for a symbol, and no symbol in it is out of range. -/
def Tidy (width : Nat) (st : State) : Prop :=
  (∀ item ∈ st.kernel, ∀ t ∈ item.lookaheads, t < width) ∧ (st.closure.map Prod.fst).Nodup ∧
    ∀ x ∈ st.closure, x.1 < width ∧ ∀ t ∈ x.2, t < width

lemma Tidy.length_le {width : Nat} (h : st.Tidy width) : st.closure.length ≤ width := by
  obtain ⟨-, hnodup, hrange⟩ := h
  have hsub : st.closure.map Prod.fst ⊆ List.range width := by
    intro s hs
    obtain ⟨x, hx, rfl⟩ := List.mem_map.mp hs
    exact List.mem_range.mpr (hrange x hx).1
  have hle := (hnodup.subperm hsub).length_le
  rwa [List.length_map, List.length_range] at hle

/-- Is the symbol in the closure, or the terminal in its set? -/
def knows (c : List (SymbolId × TerminalSet)) : SymbolId × Option SymbolId → Bool
  | (s, none) => c.any fun x => x.1 == s
  | (s, some t) => c.any fun x => x.1 == s && x.2.contains t

lemma knows_none {s : SymbolId} : knows c (s, none) = true ↔ s ∈ c.map Prod.fst := by
  simp [knows]

lemma knows_some {s t : SymbolId} :
    knows c (s, some t) = true ↔ ∃ set, (s, set) ∈ c ∧ t ∈ set := by
  simp only [knows, List.any_eq_true, Bool.and_eq_true, beq_iff_eq]
  constructor
  · rintro ⟨⟨s, set⟩, hmem, rfl, ht⟩
    exact ⟨set, hmem, ht⟩
  · rintro ⟨set, hmem, ht⟩
    exact ⟨(s, set), hmem, rfl, ht⟩

lemma knows_of_grows {d : List (SymbolId × TerminalSet)} (h : Grows c d)
    {x : SymbolId × Option SymbolId} (hx : knows c x = true) : knows d x = true := by
  induction h with
  | nil =>
    obtain ⟨s, o⟩ := x
    cases o <;> simp [knows] at hx
  | cons hab _ ih =>
    obtain ⟨s, o⟩ := x
    cases o with
    | none =>
      simp only [knows_none, List.map_cons, List.mem_cons] at hx ih ⊢
      exact hx.imp_right ih
    | some t =>
      simp only [knows_some, List.mem_cons] at hx ih ⊢
      obtain ⟨set, hset | hset, ht⟩ := hx
      · obtain ⟨rfl, rfl⟩ := Prod.mk.inj hset
        exact ⟨_, .inl rfl, hab t ht⟩
      · obtain ⟨set, hset, ht⟩ := ih ⟨set, hset, ht⟩
        exact ⟨set, .inr hset, ht⟩

lemma knows_cons_of_ne {s s' : SymbolId} {set : TerminalSet} {o : Option SymbolId}
    (h : s ≠ s') : knows ((s, set) :: c) (s', o) = knows c (s', o) := by
  cases o <;> simp [knows, h]

/-- A closure that grew and knows no more is the same. -/
lemma eq_of_grows_of_knows {width : Nat} {d : List (SymbolId × TerminalSet)} (h : Grows c d)
    (hc : (c.map Prod.fst).Nodup) (hd : (d.map Prod.fst).Nodup)
    (hrange : ∀ x ∈ d, x.1 < width ∧ ∀ t ∈ x.2, t < width)
    (hknows : ∀ x ∈ symbolFacts width, knows d x = true → knows c x = true) : c = d := by
  have hfact : ∀ x ∈ d, (x.1, none) ∈ symbolFacts width ∧
      ∀ t ∈ x.2, (x.1, some t) ∈ symbolFacts width := by
    intro x hx
    have hx₁ := Finset.mem_range.mpr (hrange x hx).1
    exact ⟨Finset.mk_mem_product hx₁ Finset.none_mem_insertNone, fun t ht =>
      Finset.mk_mem_product hx₁ (Finset.some_mem_insertNone.mpr
        (Finset.mem_range.mpr ((hrange x hx).2 t ht)))⟩
  induction h with
  | @nil d =>
    cases d with
    | nil => rfl
    | cons x d =>
      have := hknows _ (hfact x List.mem_cons_self).1 (knows_none.mpr (by simp))
      simp [knows] at this
  | @cons s a b c d hab hgrows ih =>
    obtain ⟨hsc, hnodupc⟩ := List.nodup_cons.mp hc
    obtain ⟨hsd, hnodupd⟩ := List.nodup_cons.mp hd
    have hset : a = b := by
      refine TerminalSet.ext_mem fun t => ⟨hab t, fun ht => ?_⟩
      have hk := hknows _ ((hfact (s, b) List.mem_cons_self).2 t ht)
        (knows_some.mpr ⟨b, List.mem_cons_self, ht⟩)
      obtain ⟨set, hmem, ht⟩ := knows_some.mp hk
      rcases List.mem_cons.mp hmem with heq | hmem
      · obtain ⟨-, rfl⟩ := Prod.mk.inj heq
        exact ht
      · exact absurd (List.mem_map.mpr ⟨(s, set), hmem, rfl⟩) hsc
    rw [hset, ih hnodupc hnodupd (fun x hx => hrange x (List.mem_cons_of_mem _ hx)) ?_
      (fun x hx => hfact x (List.mem_cons_of_mem _ hx))]
    -- what the rest knows is about another symbol than `s`
    rintro ⟨s', o⟩ hx hk
    have hne : s ≠ s' := by
      rintro rfl
      cases o with
      | none => exact hsd (knows_none.mp hk)
      | some t =>
        obtain ⟨set, hmem, -⟩ := knows_some.mp hk
        exact hsd (List.mem_map.mpr ⟨(s, set), hmem, rfl⟩)
    have := hknows _ hx (by rwa [knows_cons_of_ne hne])
    rwa [knows_cons_of_ne hne] at this

/-- What a closure does not know of the symbols and terminals there are. -/
def unknown (width : Nat) (c : List (SymbolId × TerminalSet)) :
    Finset (SymbolId × Option SymbolId) :=
  (symbolFacts width).filter fun x => knows c x = false

/-- A closure that has become another one knows more. -/
lemma card_unknown_lt {d : List (SymbolId × TerminalSet)} {width : Nat} (h : Grows c d)
    (hne : c ≠ d) (hc : (c.map Prod.fst).Nodup) (hd : (d.map Prod.fst).Nodup)
    (hrange : ∀ x ∈ d, x.1 < width ∧ ∀ t ∈ x.2, t < width) :
    (unknown width d).card < (unknown width c).card := by
  refine Finset.card_lt_card (Finset.ssubset_iff_subset_ne.mpr ⟨fun x hx => ?_, fun heq => ?_⟩)
  · obtain ⟨hx, hunknown⟩ := Finset.mem_filter.mp hx
    refine Finset.mem_filter.mpr ⟨hx, Bool.eq_false_iff.mpr fun hknows => ?_⟩
    rw [knows_of_grows h hknows] at hunknown
    cases hunknown
  · refine hne (eq_of_grows_of_knows h hc hd hrange fun x hx hknows => ?_)
    by_contra hnot
    have hmem : x ∈ unknown width c :=
      Finset.mem_filter.mpr ⟨hx, Bool.eq_false_iff.mpr hnot⟩
    rw [← heq] at hmem
    rw [(Finset.mem_filter.mp hmem).2] at hknows
    cases hknows

section LastRound

variable {ps : Productions} {target : SymbolId}

lemma bounded_union {width : Nat} {s : SymbolId} {a b : TerminalSet}
    (ha : s < width ∧ ∀ t ∈ a, t < width) (hb : s < width ∧ ∀ t ∈ b, t < width) :
    s < width ∧ ∀ t ∈ a.union b, t < width := by
  refine ⟨ha.1, fun t ht => ?_⟩
  rcases TerminalSet.mem_union.mp ht with ht | ht
  · exact ha.2 t ht
  · exact hb.2 t ht

/-- Only symbols of the grammar are demanded. -/
lemma bounded_demand (hps : ps.Proper target) {item : Item} {demand : SymbolId × TerminalSet}
    (h : ps.basis.demand? item = some demand) (hitem : ∀ t ∈ item.lookaheads, t < ps.width) :
    demand.1 < ps.width ∧ ∀ t ∈ demand.2, t < ps.width := by
  obtain ⟨s, set⟩ := demand
  obtain ⟨β, hrest, rfl⟩ := Productions.demand?_eq_some_iff.mp h
  obtain ⟨hs, hβ⟩ := hps.symbol_lt_of_rest hrest
  refine ⟨hs, fun t ht => ?_⟩
  rcases (Productions.mem_ahead hps hrest).mp ht with ht | ⟨-, ht⟩
  · exact ht.lt_width hps hβ
  · exact hitem t ht

lemma Tidy.spread (hps : ps.Proper target) (h : st.Tidy ps.width) :
    (spread ps.basis st).Tidy ps.width := by
  obtain ⟨hkernel, hnodup, hrange⟩ := h
  refine ⟨hkernel, nodup_sweep _ _ (nodup_foldl_raise _ hnodup), ?_⟩
  refine forall_mem_sweep (P := fun s set => s < ps.width ∧ ∀ t ∈ set, t < ps.width)
    (fun _ _ _ => bounded_union) ?_ _ _
    (forall_mem_foldl_raise (P := fun s set => s < ps.width ∧ ∀ t ∈ set, t < ps.width)
      (fun _ _ _ => bounded_union) hrange ?_)
  · rintro s set ⟨-, hset⟩ item hitem d hd
    refine bounded_demand hps hd ?_
    rwa [Productions.lookaheads_of_mem_openings hitem]
  · intro d hd
    obtain ⟨item, hitem, hd⟩ := List.mem_filterMap.mp hd
    exact bounded_demand hps hd (hkernel item hitem)

lemma Tidy.close (hps : ps.Proper target) (h : st.Tidy ps.width) :
    (st.close ps.basis).Tidy ps.width :=
  @untilStable_induction _ _ (State.spread ps.basis) (Tidy ps.width)
    (fun _ => Tidy.spread hps) _ st h

/-- A round changes nothing in a completed closure. -/
lemma spread_close (hps : ps.Proper target) (h : st.Tidy ps.width) :
    spread ps.basis (st.close ps.basis) = st.close ps.basis := by
  refine step_untilStable_of_knows (p := Tidy ps.width) (fun _ => Tidy.spread hps)
    (fun st => knows st.closure) (symbolFacts ps.width)
    (fun st _ _ _ => knows_of_grows (grows_spread ps.basis st)) ?_ h ?_
  · intro st hst hknows
    have hclosure := eq_of_grows_of_knows (grows_spread ps.basis st) hst.2.1
      (hst.spread hps).2.1 (hst.spread hps).2.2 hknows
    show { st with closure := (spread ps.basis st).closure } = st
    rw [← hclosure]
  · rw [card_symbolFacts, Productions.basis_productions]
    exact Nat.lt_succ_of_le (Nat.mul_le_mul_right _ (Nat.le_succ _))

/-- A completed closure meets every demand. -/
lemma closed_close (hps : ps.Proper target) (h : st.Tidy ps.width) :
    (st.close ps.basis).Closed ps.basis :=
  closed_of_spread_eq (spread_close hps h) (h.close hps).length_le

end LastRound

end State

end ShiftReduce
