import ShiftReduce.Automaton.FirstSet
import ShiftReduce.Proofs.Automaton.Derivation
import ShiftReduce.Proofs.Automaton.Production
import Mathlib.Data.Finset.Option
import Mathlib.Data.Finset.Prod
/-!
# First sets are exact

The first sets of a grammar are reached by iteration from nothing. They say nothing but the truth,
since every round only draws consequences of the last one; and they say all of it, since the last
round added nothing and a derivation can be followed backwards through such sets.

Main statements: `FirstSets.nullable_compute` and `FirstSets.mem_compute`.
-/

namespace ShiftReduce

/-! ## Iteration that fills a finite set -/

/-- If a step keeps what is known of finitely many facts, and changes nothing when no more of them
is known after it, then fuel beyond their number ends at a fixed point. -/
lemma step_untilStable_of_knows {α β : Type} [DecidableEq α] {step : α → α} {p : α → Prop}
    (hp : ∀ x, p x → p (step x)) (knows : α → β → Bool) (facts : Finset β)
    (hkeep : ∀ x, p x → ∀ b ∈ facts, knows x b = true → knows (step x) b = true)
    (hsame : ∀ x, p x → (∀ b ∈ facts, knows (step x) b = true → knows x b = true) → step x = x)
    {fuel : Nat} {x : α} (hx : p x) (hfuel : facts.card < fuel) :
    step (untilStable step fuel x) = untilStable step fuel x := by
  -- the number of facts that are not known falls
  refine step_untilStable hp (fun x => facts.card - (facts.filter (knows x ·)).card) ?_ fuel x hx
    (by omega)
  intro x hx hne
  have hgrow : facts.filter (knows x ·) ⊂ facts.filter (knows (step x) ·) := by
    refine Finset.ssubset_iff_subset_ne.mpr
      ⟨fun b hb => ?_, fun heq => hne (hsame x hx fun b hb hknows => ?_)⟩
    · obtain ⟨hb, hknows⟩ := Finset.mem_filter.mp hb
      exact Finset.mem_filter.mpr ⟨hb, hkeep x hx b hb hknows⟩
    · have hmem : b ∈ facts.filter (knows (step x) ·) := Finset.mem_filter.mpr ⟨hb, hknows⟩
      rw [← heq] at hmem
      exact (Finset.mem_filter.mp hmem).2
  have h₁ := Finset.card_lt_card hgrow
  have h₂ := Finset.card_le_card (Finset.filter_subset (knows (step x) ·) facts)
  omega

/-- Pairs of a symbol and, perhaps, a terminal, all below a bound. -/
def symbolFacts (width : Nat) : Finset (SymbolId × Option SymbolId) :=
  Finset.range width ×ˢ Finset.insertNone (Finset.range width)

lemma card_symbolFacts (width : Nat) : (symbolFacts width).card = width * (width + 1) := by
  rw [symbolFacts, Finset.card_product, Finset.card_insertNone, Finset.card_range]

namespace TerminalSet

variable {a b : TerminalSet} {s t : SymbolId}

@[simp] lemma mem_union : t ∈ a.union b ↔ t ∈ a ∨ t ∈ b := by
  show (a.union b).contains t = true ↔ a.contains t = true ∨ b.contains t = true
  rw [contains_union, Bool.or_eq_true]

@[simp] lemma mem_singleton : t ∈ singleton s ↔ t = s := by
  show (singleton s).contains t = true ↔ t = s
  rw [contains_singleton, decide_eq_true_eq, eq_comm]

@[simp] lemma not_mem_empty : ¬ t ∈ empty := by
  show ¬ empty.contains t = true
  simp [contains_empty]

lemma ext_mem (h : ∀ t, t ∈ a ↔ t ∈ b) : a = b :=
  ext fun t => Bool.eq_iff_iff.mpr (h t)

end TerminalSet

namespace FirstSets

variable {ps : Productions} {f : FirstSets} {target s t : SymbolId} {α β : List Part}

/-! ## Strings of parts -/

lemma nullable_followedBy (a b : FirstSet) :
    (a.followedBy b).nullable = (a.nullable && b.nullable) := by
  unfold FirstSet.followedBy
  split <;> simp_all

lemma mem_followedBy {a b : FirstSet} :
    t ∈ (a.followedBy b).terminals ↔ t ∈ a.terminals ∨ a.nullable = true ∧ t ∈ b.terminals := by
  unfold FirstSet.followedBy
  split <;> simp_all

lemma nullable_ofParts_append (f : FirstSets) (α β : List Part) :
    (f.ofParts (α ++ β)).nullable = ((f.ofParts α).nullable && (f.ofParts β).nullable) := by
  induction α with
  | nil => simp [ofParts]
  | cons part α ih => simp [ofParts, nullable_followedBy, ih, Bool.and_assoc]

lemma mem_ofParts_append : t ∈ (f.ofParts (α ++ β)).terminals ↔
    t ∈ (f.ofParts α).terminals ∨ (f.ofParts α).nullable = true ∧ t ∈ (f.ofParts β).terminals := by
  induction α with
  | nil => simp [ofParts]
  | cons part α ih =>
    simp only [List.cons_append, ofParts, mem_followedBy, nullable_followedBy, ih,
      Bool.and_eq_true]
    tauto

lemma mem_ahead {lookaheads : TerminalSet} : t ∈ f.ahead α lookaheads ↔
    t ∈ (f.ofParts α).terminals ∨ (f.ofParts α).nullable = true ∧ t ∈ lookaheads := by
  rw [ahead, mem_followedBy]

lemma eq_of_same {a b : FirstSet} (hn : a.nullable = b.nullable)
    (ht : ∀ t, t ∈ a.terminals ↔ t ∈ b.terminals) : a = b := by
  cases a
  cases b
  simp only [FirstSet.mk.injEq]
  exact ⟨TerminalSet.ext_mem ht, hn⟩

lemma ofParts_nonterminal (f : FirstSets) (s : SymbolId) :
    f.ofParts [.nonterminal s] = f.get s := by
  refine eq_of_same ?_ fun t => ?_
  · simp [ofParts, ofPart, nullable_followedBy]
  · simp [ofParts, ofPart, mem_followedBy]

/-! ## One round -/

lemma nullable_foldl_either (l : List Production) (found : FirstSet) :
    (l.foldl (fun found p => if p.lhs = s then found.either (f.ofParts p.rhs) else found)
        found).nullable = true ↔
      found.nullable = true ∨ ∃ p ∈ l, p.lhs = s ∧ (f.ofParts p.rhs).nullable = true := by
  induction l generalizing found with
  | nil => simp
  | cons p l ih =>
    rw [List.foldl_cons, ih]
    by_cases h : p.lhs = s <;> simp [h, FirstSet.either, or_assoc]

lemma mem_foldl_either (l : List Production) (found : FirstSet) :
    t ∈ (l.foldl (fun found p => if p.lhs = s then found.either (f.ofParts p.rhs) else found)
        found).terminals ↔
      t ∈ found.terminals ∨ ∃ p ∈ l, p.lhs = s ∧ t ∈ (f.ofParts p.rhs).terminals := by
  induction l generalizing found with
  | nil => simp
  | cons p l ih =>
    rw [List.foldl_cons, ih]
    by_cases h : p.lhs = s <;> simp [h, FirstSet.either, or_assoc]

lemma mem_list_iff {prod : Production} :
    prod ∈ ps.list.toList ↔ ∃ p, ps.get? p = some prod := by
  simp only [List.mem_iff_getElem?, Array.getElem?_toList, Productions.get?]

lemma get_grow (f : FirstSets) (hs : s < ps.width) :
    (grow ps f).get s = ps.list.toList.foldl
      (fun found p => if p.lhs = s then found.either (f.ofParts p.rhs) else found) (f.get s) := by
  simp only [get, grow, List.getD_eq_getElem?_getD, List.getElem?_map,
    List.getElem?_range hs, Option.map_some, Option.getD_some]

lemma nullable_get_grow (hs : s < ps.width) : ((grow ps f).get s).nullable = true ↔
    (f.get s).nullable = true ∨
      ∃ p prod, ps.get? p = some prod ∧ prod.lhs = s ∧ (f.ofParts prod.rhs).nullable = true := by
  rw [get_grow f hs, nullable_foldl_either]
  simp only [mem_list_iff]
  aesop

lemma mem_get_grow (hs : s < ps.width) : t ∈ ((grow ps f).get s).terminals ↔
    t ∈ (f.get s).terminals ∨
      ∃ p prod, ps.get? p = some prod ∧ prod.lhs = s ∧ t ∈ (f.ofParts prod.rhs).terminals := by
  rw [get_grow f hs, mem_foldl_either]
  simp only [mem_list_iff]
  aesop

/-! ## Nothing but the truth -/

/-- What is said of single non-terminals is true. -/
def Sound (ps : Productions) (f : FirstSets) : Prop :=
  ∀ s, ((f.get s).nullable = true → ps.Nullable [.nonterminal s]) ∧
    ∀ t ∈ (f.get s).terminals, ps.Begins [.nonterminal s] t

lemma Sound.nullable (h : Sound ps f) (hα : (f.ofParts α).nullable = true) : ps.Nullable α := by
  induction α with
  | nil => exact .refl
  | cons part α ih =>
    simp only [ofParts, nullable_followedBy, Bool.and_eq_true] at hα
    cases part with
    | terminal u => simp [ofPart] at hα
    | nonterminal s => exact ((h s).1 hα.1).append (ih hα.2)

lemma Sound.begins (h : Sound ps f) (hα : t ∈ (f.ofParts α).terminals) : ps.Begins α t := by
  induction α with
  | nil => simp [ofParts] at hα
  | cons part α ih =>
    rw [ofParts, mem_followedBy] at hα
    cases part with
    | terminal u =>
      simp only [ofPart, TerminalSet.mem_singleton, Bool.false_eq_true, false_and, or_false] at hα
      rw [hα]
      exact Productions.begins_terminal u α
    | nonterminal s =>
      rcases hα with hs | ⟨hs, ht⟩
      · exact ((h s).2 t hs).append_right α
      · exact ((h s).1 hs).begins_append (ih ht)

lemma Sound.grow (h : Sound ps f) : Sound ps (grow ps f) := by
  intro s
  by_cases hs : s < ps.width
  · constructor
    · intro hn
      rcases (nullable_get_grow hs).mp hn with hold | ⟨p, prod, hp, rfl, hnew⟩
      · exact (h s).1 hold
      · exact (Productions.Derives.of_production hp).trans (h.nullable hnew)
    · intro t ht
      rcases (mem_get_grow hs).mp ht with hold | ⟨p, prod, hp, rfl, hnew⟩
      · exact (h s).2 t hold
      · obtain ⟨γ, hγ⟩ := h.begins hnew
        exact ⟨γ, (Productions.Derives.of_production hp).trans hγ⟩
  · have hnone : (FirstSets.grow ps f).get s = FirstSet.none := by
      simp only [get, FirstSets.grow, List.getD_eq_getElem?_getD]
      rw [List.getElem?_eq_none (by simpa using hs)]
      rfl
    simp [hnone, FirstSet.none]

lemma sound_none (ps : Productions) : Sound ps (List.replicate ps.width FirstSet.none) := by
  intro s
  have hnone : FirstSets.get (List.replicate ps.width FirstSet.none) s = FirstSet.none := by
    simp only [get, List.getD_eq_getElem?_getD, List.getElem?_replicate]
    split <;> rfl
  rw [hnone]
  simp [FirstSet.none]

lemma sound_compute (ps : Productions) : Sound ps (compute ps) :=
  untilStable_induction (p := Sound ps) (fun _ => Sound.grow) _ _ (sound_none ps)

/-! ## All of it -/

/-- What is said of a right-hand side is said of the symbol it defines. -/
def Closed (ps : Productions) (f : FirstSets) : Prop :=
  ∀ p prod, ps.get? p = some prod → prod.lhs < ps.width →
    ((f.ofParts prod.rhs).nullable = true → (f.get prod.lhs).nullable = true) ∧
    ∀ t ∈ (f.ofParts prod.rhs).terminals, t ∈ (f.get prod.lhs).terminals

lemma closed_of_grow_eq (h : grow ps f = f) : Closed ps f := by
  intro p prod hp hs
  constructor
  · intro hn
    rw [← h]
    exact (nullable_get_grow hs).mpr (.inr ⟨p, prod, hp, rfl, hn⟩)
  · intro t ht
    rw [← h]
    exact (mem_get_grow hs).mpr (.inr ⟨p, prod, hp, rfl, ht⟩)

/-- Is it known that the symbol can vanish, or that the terminal can begin it? -/
def knows (f : FirstSets) : SymbolId × Option SymbolId → Bool
  | (s, none) => (f.get s).nullable
  | (s, some t) => (f.get s).terminals.contains t

/-- One entry for every symbol, and no terminal out of range. -/
def Bounded (ps : Productions) (f : FirstSets) : Prop :=
  f.length = ps.width ∧ ∀ s, ∀ t ∈ (f.get s).terminals, t < ps.width

lemma Bounded.ofParts (h : Bounded ps f) (hα : ∀ part ∈ α, part.symbol < ps.width)
    (ht : t ∈ (f.ofParts α).terminals) : t < ps.width := by
  induction α with
  | nil => simp [FirstSets.ofParts] at ht
  | cons part α ih =>
    rw [FirstSets.ofParts, mem_followedBy] at ht
    rcases ht with ht | ⟨-, ht⟩
    · cases part with
      | terminal u =>
        simp only [ofPart, TerminalSet.mem_singleton] at ht
        rw [ht]
        exact hα (.terminal u) List.mem_cons_self
      | nonterminal s => exact h.2 s t ht
    · exact ih (fun part hpart => hα part (List.mem_cons_of_mem _ hpart)) ht

lemma Bounded.grow (hps : ps.Proper target) (h : Bounded ps f) : Bounded ps (grow ps f) := by
  refine ⟨by simp [FirstSets.grow], fun s t ht => ?_⟩
  by_cases hs : s < ps.width
  · rcases (mem_get_grow hs).mp ht with ht | ⟨p, prod, hp, -, ht⟩
    · exact h.2 s t ht
    · exact h.ofParts (hps.symbol_lt hp) ht
  · exfalso
    rw [get, List.getD_eq_getElem?_getD,
      List.getElem?_eq_none (by simpa [FirstSets.grow] using hs)] at ht
    simp [FirstSet.none] at ht

lemma bounded_none (ps : Productions) : Bounded ps (List.replicate ps.width FirstSet.none) := by
  refine ⟨List.length_replicate, fun s t ht => ?_⟩
  rw [get, List.getD_eq_getElem?_getD, List.getElem?_replicate] at ht
  split at ht <;> simp [FirstSet.none] at ht

/-- Sets that know the same are the same. -/
lemma Bounded.ext {f' : FirstSets} (h : Bounded ps f) (h' : Bounded ps f')
    (hknows : ∀ x ∈ symbolFacts ps.width, f.knows x = f'.knows x) : f = f' := by
  have hget : ∀ s < ps.width, f.get s = f'.get s := by
    intro s hs
    have hfact : ∀ o ∈ Finset.insertNone (Finset.range ps.width),
        f.knows (s, o) = f'.knows (s, o) :=
      fun o ho => hknows (s, o) (Finset.mk_mem_product (Finset.mem_range.mpr hs) ho)
    have hterminals : (f.get s).terminals = (f'.get s).terminals := by
      refine TerminalSet.ext fun t => ?_
      by_cases ht : t < ps.width
      · exact hfact (some t) (Finset.some_mem_insertNone.mpr (Finset.mem_range.mpr ht))
      · rw [Bool.eq_false_iff.mpr fun hc => ht (h.2 s t hc),
          Bool.eq_false_iff.mpr fun hc => ht (h'.2 s t hc)]
    have hnullable := hfact none (Finset.none_mem_insertNone)
    exact eq_of_same hnullable fun t => by rw [hterminals]
  refine List.ext_getElem (h.1.trans h'.1.symm) fun i hi hi' => ?_
  have := hget i (h.1 ▸ hi)
  simpa [get, List.getD_eq_getElem?_getD, hi, hi'] using this

lemma knows_grow {x : SymbolId × Option SymbolId} (hx : x ∈ symbolFacts ps.width)
    (h : f.knows x = true) : (grow ps f).knows x = true := by
  obtain ⟨s, o⟩ := x
  have hs : s < ps.width := by simpa using (Finset.mem_product.mp hx).1
  cases o with
  | none => exact (nullable_get_grow hs).mpr (.inl h)
  | some t => exact (mem_get_grow hs).mpr (.inl h)

lemma bounded_compute (hps : ps.Proper target) : Bounded ps (compute ps) :=
  untilStable_induction (p := Bounded ps) (fun _ => Bounded.grow hps) _ _ (bounded_none ps)

lemma grow_compute (hps : ps.Proper target) : grow ps (compute ps) = compute ps := by
  refine step_untilStable_of_knows (p := Bounded ps) (fun _ => Bounded.grow hps) knows
    (symbolFacts ps.width) (fun _ _ _ hx => knows_grow hx) ?_ (bounded_none ps)
    (by rw [card_symbolFacts]; exact Nat.lt_succ_self _)
  intro f hf hknows
  refine (hf.grow hps).ext hf fun x hx => ?_
  rw [Bool.eq_iff_iff]
  exact ⟨hknows x hx, knows_grow hx⟩

/-- One replacement is followed backwards, from strings of known symbols to such strings. -/
lemma Closed.of_rewrites (hps : ps.Proper target) (h : Closed ps f) (hstep : ps.Rewrites α β)
    (hα : ∀ part ∈ α, part.symbol < ps.width) : (∀ part ∈ β, part.symbol < ps.width) ∧
      ((f.ofParts β).nullable = true → (f.ofParts α).nullable = true) ∧
      ∀ t ∈ (f.ofParts β).terminals, t ∈ (f.ofParts α).terminals := by
  cases hstep with
  | @expand u v p prod hp =>
    have hlhs : prod.lhs < ps.width := hα (.nonterminal prod.lhs) (by simp)
    obtain ⟨hnull, hmem⟩ := h p prod hp hlhs
    -- the non-terminal as a string of its own, so that both strings have three pieces
    rw [← List.singleton_append, ← List.append_assoc] at hα ⊢
    refine ⟨?known, ?vanish, ?begin⟩
    case known =>
      intro part hpart
      simp only [List.mem_append] at hpart
      rcases hpart with (hpart | hpart) | hpart
      · exact hα part (by simp [hpart])
      · exact hps.symbol_lt hp part hpart
      · exact hα part (by simp [hpart])
    case vanish =>
      simp only [nullable_ofParts_append, ofParts_nonterminal, Bool.and_eq_true]
      tauto
    case begin =>
      intro t
      simp only [mem_ofParts_append, nullable_ofParts_append, ofParts_nonterminal,
        Bool.and_eq_true]
      have := hmem t
      tauto

/-- A derivation is followed backwards: what can be read off its end was known at its start. -/
lemma Closed.of_derives (hps : ps.Proper target) (h : Closed ps f)
    (hα : ∀ part ∈ α, part.symbol < ps.width) (hd : ps.Derives α β) :
    ((f.ofParts β).nullable = true → (f.ofParts α).nullable = true) ∧
      ∀ t ∈ (f.ofParts β).terminals, t ∈ (f.ofParts α).terminals := by
  induction hd using Relation.ReflTransGen.head_induction_on with
  | refl => exact ⟨id, fun _ => id⟩
  | head hstep _ ih =>
    obtain ⟨hα', hnull, hmem⟩ := h.of_rewrites hps hstep hα
    obtain ⟨hnull', hmem'⟩ := ih hα'
    exact ⟨hnull ∘ hnull', fun t => hmem t ∘ hmem' t⟩

/-! ## Exactness -/

lemma Closed.nullable_iff (hps : ps.Proper target) (h : Closed ps f) (hsound : Sound ps f)
    (hα : ∀ part ∈ α, part.symbol < ps.width) :
    (f.ofParts α).nullable = true ↔ ps.Nullable α :=
  ⟨hsound.nullable, fun hn => (h.of_derives hps hα hn).1 rfl⟩

lemma Closed.mem_iff (hps : ps.Proper target) (h : Closed ps f) (hsound : Sound ps f)
    (hα : ∀ part ∈ α, part.symbol < ps.width) :
    t ∈ (f.ofParts α).terminals ↔ ps.Begins α t := by
  refine ⟨hsound.begins, fun ⟨γ, hγ⟩ => ?_⟩
  refine (h.of_derives hps hα hγ).2 t ?_
  rw [ofParts, mem_followedBy]
  exact .inl (TerminalSet.mem_singleton.mpr rfl)

lemma nullable_compute (hps : ps.Proper target) (hα : ∀ part ∈ α, part.symbol < ps.width) :
    ((compute ps).ofParts α).nullable = true ↔ ps.Nullable α :=
  (closed_of_grow_eq (grow_compute hps)).nullable_iff hps (sound_compute ps) hα

lemma mem_compute (hps : ps.Proper target) (hα : ∀ part ∈ α, part.symbol < ps.width) :
    t ∈ ((compute ps).ofParts α).terminals ↔ ps.Begins α t :=
  (closed_of_grow_eq (grow_compute hps)).mem_iff hps (sound_compute ps) hα

end FirstSets

namespace Productions

variable {ps : Productions} {target t : SymbolId} {α : List Part}

/-- A terminal that can begin a string is a symbol of the grammar. -/
lemma Begins.lt_width (hps : ps.Proper target) (hα : ∀ part ∈ α, part.symbol < ps.width)
    (h : ps.Begins α t) : t < ps.width :=
  (FirstSets.bounded_compute hps).ofParts hα ((FirstSets.mem_compute hps hα).mpr h)

end Productions

end ShiftReduce
