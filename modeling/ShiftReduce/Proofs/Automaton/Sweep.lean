import ShiftReduce.Proofs.Automaton.FirstSet
/-!
# First sets in place

The first sets may also be computed in place: every production adds what it gives to the set of its
left-hand side, and the next production already sees it. One such sweep over the productions may add
more than one round of `FirstSets.grow`, so the sets on the way are others. But a sweep adds
consequences only, and a sweep that adds nothing leaves nothing to be added, so both ways end at the
same sets.

Main statement: `FirstSets.untilStable_sweep`.
-/

namespace ShiftReduce

namespace FirstSets

/-- Adds what a production gives to the set of its left-hand side. -/
def absorb (f : FirstSets) (p : Production) : FirstSets :=
  f.modify p.lhs fun found => found.either (f.ofParts p.rhs)

/-- Visits every production once, each with what the visits before it have added. -/
def sweep (ps : Productions) (f : FirstSets) : FirstSets := ps.list.toList.foldl absorb f

variable {ps : Productions} {f : FirstSets} {p : Production} {target s t : SymbolId}
  {x : SymbolId × Option SymbolId}

/-! ## One production -/

lemma get_absorb (f : FirstSets) (p : Production) (s : SymbolId) :
    (f.absorb p).get s =
      if p.lhs = s ∧ s < f.length then (f.get s).either (f.ofParts p.rhs) else f.get s := by
  simp only [get, absorb, List.getD_eq_getElem?_getD, List.getElem?_modify]
  by_cases hs : s < f.length
  · simp only [List.getElem?_eq_getElem hs, hs, and_true]
    split <;> rfl
  · simp [hs]

lemma nullable_get_absorb : ((f.absorb p).get s).nullable = true ↔
    (f.get s).nullable = true ∨
      p.lhs = s ∧ s < f.length ∧ (f.ofParts p.rhs).nullable = true := by
  rw [get_absorb]
  split <;> simp_all [FirstSet.either]

lemma mem_get_absorb : t ∈ ((f.absorb p).get s).terminals ↔
    t ∈ (f.get s).terminals ∨ p.lhs = s ∧ s < f.length ∧ t ∈ (f.ofParts p.rhs).terminals := by
  rw [get_absorb]
  split <;> simp_all [FirstSet.either]

lemma knows_absorb (p : Production) (h : f.knows x = true) : (f.absorb p).knows x = true := by
  obtain ⟨s, o⟩ := x
  cases o with
  | none => exact nullable_get_absorb.mpr (.inl h)
  | some t => exact mem_get_absorb.mpr (.inl h)

lemma Sound.absorb (h : Sound ps f) (hp : p ∈ ps.list.toList) : Sound ps (f.absorb p) := by
  obtain ⟨i, hi⟩ := mem_list_iff.mp hp
  intro s
  constructor
  · intro hn
    rcases nullable_get_absorb.mp hn with hold | ⟨rfl, -, hnew⟩
    · exact (h s).1 hold
    · exact (Productions.Derives.of_production hi).trans (h.nullable hnew)
  · intro t ht
    rcases mem_get_absorb.mp ht with hold | ⟨rfl, -, hnew⟩
    · exact (h s).2 t hold
    · obtain ⟨γ, hγ⟩ := h.begins hnew
      exact ⟨γ, (Productions.Derives.of_production hi).trans hγ⟩

lemma Bounded.absorb (hps : ps.Proper target) (h : Bounded ps f) (hp : p ∈ ps.list.toList) :
    Bounded ps (f.absorb p) := by
  obtain ⟨i, hi⟩ := mem_list_iff.mp hp
  refine ⟨by rw [FirstSets.absorb, List.length_modify, h.1], fun s t ht => ?_⟩
  rcases mem_get_absorb.mp ht with hold | ⟨-, -, hnew⟩
  · exact h.2 s t hold
  · exact h.ofParts (hps.symbol_lt hi) hnew

/-! ## One sweep -/

lemma knows_foldl_absorb (l : List Production) (h : f.knows x = true) :
    (l.foldl absorb f).knows x = true := by
  induction l generalizing f with
  | nil => exact h
  | cons p l ih => exact ih (knows_absorb p h)

lemma knows_sweep (h : f.knows x = true) : (sweep ps f).knows x = true :=
  knows_foldl_absorb ps.list.toList h

/-- What every production keeps, a sweep keeps. -/
lemma sweep_induction {P : FirstSets → Prop}
    (hkeep : ∀ f, P f → ∀ p ∈ ps.list.toList, P (f.absorb p)) (h : P f) : P (sweep ps f) := by
  have hfold : ∀ l : List Production, (∀ p ∈ l, p ∈ ps.list.toList) →
      ∀ f, P f → P (l.foldl absorb f) := by
    intro l
    induction l with
    | nil => exact fun _ _ h => h
    | cons p l ih =>
      intro hl f h
      obtain ⟨hp, hl⟩ := List.forall_mem_cons.mp hl
      exact ih hl _ (hkeep f h p hp)
  exact hfold _ (fun _ hp => hp) f h

lemma Sound.sweep (h : Sound ps f) : Sound ps (sweep ps f) :=
  sweep_induction (fun _ h _ => h.absorb) h

lemma Bounded.sweep (hps : ps.Proper target) (h : Bounded ps f) : Bounded ps (sweep ps f) :=
  sweep_induction (fun _ h _ => h.absorb hps) h

/-- A sweep that changes nothing does not even change something on the way. -/
lemma Bounded.absorb_eq (hps : ps.Proper target) (h : Bounded ps f)
    (hsame : FirstSets.sweep ps f = f) (hp : p ∈ ps.list.toList) : f.absorb p = f := by
  have hfold : ∀ l : List Production, (∀ p ∈ l, p ∈ ps.list.toList) →
      l.foldl FirstSets.absorb f = f → ∀ p ∈ l, f.absorb p = f := by
    intro l
    induction l with
    | nil => exact fun _ _ p hp => absurd hp List.not_mem_nil
    | cons p l ih =>
      intro hl hsame
      obtain ⟨hp, hl⟩ := List.forall_mem_cons.mp hl
      -- what the first production adds stays to the end, where it must be known already
      have hfirst : f.absorb p = f := by
        refine (h.absorb hps hp).ext h fun x _ => Bool.eq_iff_iff.mpr ⟨fun hx => ?_, ?_⟩
        · rw [← hsame]
          exact knows_foldl_absorb l hx
        · exact knows_absorb p
      rw [List.foldl_cons, hfirst] at hsame
      exact List.forall_mem_cons.mpr ⟨hfirst, ih hl hsame⟩
  exact hfold _ (fun _ hp => hp) hsame p hp

lemma Bounded.closed_of_sweep_eq (hps : ps.Proper target) (h : Bounded ps f)
    (hsame : FirstSets.sweep ps f = f) : Closed ps f := by
  intro i p hp hlhs
  have habsorb := h.absorb_eq hps hsame (mem_list_iff.mpr ⟨i, hp⟩)
  have hlength : p.lhs < f.length := h.1.symm ▸ hlhs
  constructor
  · intro hn
    rw [← habsorb]
    exact nullable_get_absorb.mpr (.inr ⟨rfl, hlength, hn⟩)
  · intro t ht
    rw [← habsorb]
    exact mem_get_absorb.mpr (.inr ⟨rfl, hlength, ht⟩)

/-! ## The sets they end at -/

/-- Sets that say nothing but the truth, and all of it, are the same. -/
lemma Bounded.eq_of_exact (hps : ps.Proper target) {f' : FirstSets} (h : Bounded ps f)
    (h' : Bounded ps f') (hsound : Sound ps f) (hsound' : Sound ps f') (hclosed : Closed ps f)
    (hclosed' : Closed ps f') : f = f' := by
  refine h.ext h' fun x hx => ?_
  obtain ⟨s, o⟩ := x
  have hs : ∀ part ∈ [Part.nonterminal s], part.symbol < ps.width := by
    intro part hpart
    rw [List.mem_singleton.mp hpart]
    exact Finset.mem_range.mp (Finset.mem_product.mp hx).1
  rw [Bool.eq_iff_iff]
  cases o with
  | none =>
    show (f.get s).nullable = true ↔ (f'.get s).nullable = true
    rw [← ofParts_nonterminal, ← ofParts_nonterminal, hclosed.nullable_iff hps hsound hs,
      hclosed'.nullable_iff hps hsound' hs]
  | some t =>
    show t ∈ (f.get s).terminals ↔ t ∈ (f'.get s).terminals
    rw [← ofParts_nonterminal, ← ofParts_nonterminal, hclosed.mem_iff hps hsound hs,
      hclosed'.mem_iff hps hsound' hs]

/-- With room for everything that can be known, sweeps come to an end. -/
lemma sweep_untilStable (hps : ps.Proper target) {fuel : Nat}
    (hfuel : ps.width * (ps.width + 1) < fuel) :
    let f := untilStable (sweep ps) fuel (List.replicate ps.width FirstSet.none)
    sweep ps f = f := by
  refine step_untilStable_of_knows (p := Bounded ps) (fun _ => Bounded.sweep hps) knows
    (symbolFacts ps.width) (fun _ _ _ _ => knows_sweep) ?_ (bounded_none ps)
    (by rw [card_symbolFacts]; exact hfuel)
  intro f hf hknows
  refine (hf.sweep hps).ext hf fun x hx => ?_
  rw [Bool.eq_iff_iff]
  exact ⟨hknows x hx, knows_sweep⟩

/-- Sweeping in place ends at the sets that are reached in rounds. -/
theorem untilStable_sweep (hps : ps.Proper target) {fuel : Nat}
    (hfuel : ps.width * (ps.width + 1) < fuel) :
    untilStable (sweep ps) fuel (List.replicate ps.width FirstSet.none) = compute ps := by
  have hbounded : Bounded ps
      (untilStable (sweep ps) fuel (List.replicate ps.width FirstSet.none)) :=
    untilStable_induction (p := Bounded ps) (fun _ => Bounded.sweep hps) _ _ (bounded_none ps)
  have hsound : Sound ps (untilStable (sweep ps) fuel (List.replicate ps.width FirstSet.none)) :=
    untilStable_induction (p := Sound ps) (fun _ => Sound.sweep) _ _ (sound_none ps)
  exact hbounded.eq_of_exact hps (bounded_compute hps) hsound (sound_compute ps)
    (hbounded.closed_of_sweep_eq hps (sweep_untilStable hps hfuel))
    (closed_of_grow_eq (grow_compute hps))

end FirstSets

end ShiftReduce
