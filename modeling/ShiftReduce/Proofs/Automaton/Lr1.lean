import ShiftReduce.Proofs.Automaton.Lalr
/-!
# LR(1) items with one lookahead each

In the usual account an LR(1) item is an LR(0) item with one terminal, and `A → α . B β` with `a`
gives to the beginnings of `B` the terminals that can begin `β a`. An item for which there is no
such terminal, because `β` holds a non-terminal that derives no string of terminals, has then no
place in any item set, while a state keeps it without lookaheads and expands it. Where every
non-terminal in use derives a string of terminals this does not happen, and the lookaheads of a
state are those of the usual canonical collection.

Main statement: `Productions.lalr_iff_canonicalLr1`.
-/

namespace ShiftReduce

namespace Productions

variable (ps : Productions)

/-- The closure of a set of LR(1) items. -/
inductive Lr1Closure (I : Set (Dotted × SymbolId)) : Dotted × SymbolId → Prop
  | kernel {x : Dotted × SymbolId} : x ∈ I → Lr1Closure I x
  | opening {i j : Dotted} {s a t : SymbolId} {β : List Part} : Lr1Closure I (i, a) →
      ps.rest i = .nonterminal s :: β → ps.Opening s j → ps.Begins (β ++ [.terminal a]) t →
      Lr1Closure I (j, t)

/-- The closure of a set of LR(1) items, as a set. -/
def lr1Closure (I : Set (Dotted × SymbolId)) : Set (Dotted × SymbolId) := {x | ps.Lr1Closure I x}

/-- The LR(1) items entered over a part. -/
def lr1Goto (I : Set (Dotted × SymbolId)) (part : Part) : Set (Dotted × SymbolId) :=
  {y | ∃ x ∈ I, ∃ β, ps.rest x.1 = part :: β ∧ (x.1.advance, x.2) = y}

/-- The canonical collection of sets of LR(1) items. -/
inductive CanonicalLr1 : Set (Dotted × SymbolId) → Prop
  | start : CanonicalLr1 (ps.lr1Closure {(Dotted.start, SymbolId.eoi)})
  | goto {I : Set (Dotted × SymbolId)} {part : Part} : CanonicalLr1 I →
      (ps.lr1Goto I part).Nonempty → CanonicalLr1 (ps.lr1Closure (ps.lr1Goto I part))

/-- The non-terminals that occur in what `^` derives. -/
inductive InUse : SymbolId → Prop
  | start {prod : Production} {s : SymbolId} : ps.get? 0 = some prod →
      .nonterminal s ∈ prod.rhs → InUse s
  | mentioned {p : Nat} {prod : Production} {s : SymbolId} : InUse prod.lhs →
      ps.get? p = some prod → .nonterminal s ∈ prod.rhs → InUse s

variable {ps} {K : Set Dotted} {i : Dotted} {s t target : SymbolId} {β : List Part}

/-- What stands after the dot of an item that can be reached is in use. -/
lemma ReachableKernel.inUse (hps : ps.Proper target) (h : ps.ReachableKernel K)
    (hi : i ∈ ps.closure K) (hs : .nonterminal s ∈ ps.rest i) : ps.InUse s := by
  have hrest : ∀ {i : Dotted} {prod : Production} {part : Part},
      ps.get? i.production = some prod → part ∈ ps.rest i → part ∈ prod.rhs := by
    intro i prod part hp hpart
    rw [rest_eq hp] at hpart
    exact List.mem_of_mem_drop hpart
  -- along the path to the kernel, and for each kernel along its closure
  induction h generalizing i s with
  | start =>
    induction hi generalizing s with
    | kernel hi =>
      rw [Set.mem_singleton_iff] at hi
      subst hi
      exact .start hps.start (hrest hps.start hs)
    | opening _ hrest' hj ih =>
      obtain ⟨-, prod, hp, rfl⟩ := hj
      exact .mentioned (ih (by rw [hrest']; exact List.mem_cons_self)) hp (hrest hp hs)
  | goto _ _ ihK =>
    induction hi generalizing s with
    | kernel hi =>
      obtain ⟨i', hi', β, hβ, rfl⟩ := hi
      refine ihK hi' ?_
      rw [rest_advance hβ] at hs
      rw [hβ]
      exact List.mem_cons_of_mem _ hs
    | opening _ hrest' hj ih =>
      obtain ⟨-, prod, hp, rfl⟩ := hj
      exact .mentioned (ih (by rw [hrest']; exact List.mem_cons_self)) hp (hrest hp hs)

lemma begins_append_terminal {a : SymbolId} : ps.Begins (β ++ [.terminal a]) t ↔
    ps.Begins β t ∨ ps.Nullable β ∧ t = a := by
  rw [begins_append_iff, begins_terminal_iff]

end Productions

/-- The LR(1) items of an item set. -/
def ItemSet.triples (I : ItemSet) : Set (Dotted × SymbolId) :=
  {x | x.1 ∈ I.core ∧ x.2 ∈ I.lookaheads x.1}

/-- Every item of the set has a lookahead. -/
def ItemSet.Full (I : ItemSet) : Prop := ∀ i ∈ I.core, ∃ t, t ∈ I.lookaheads i

lemma ItemSet.Full.image_triples {I : ItemSet} (h : I.Full) : Prod.fst '' I.triples = I.core := by
  ext i
  constructor
  · rintro ⟨x, hx, rfl⟩
    exact hx.1
  · intro hi
    obtain ⟨t, ht⟩ := h i hi
    exact ⟨(i, t), ⟨hi, ht⟩, rfl⟩

namespace Productions

variable {ps : Productions} {K : Set Dotted} {i : Dotted} {t target : SymbolId} {part : Part}
  {I : ItemSet}

lemma lr1Goto_triples (ps : Productions) (I : ItemSet) (part : Part) :
    ps.lr1Goto I.triples part = (ps.gotoSet I part).triples := by
  ext ⟨j, t⟩
  constructor
  · rintro ⟨⟨i, t⟩, ⟨hi, ht⟩, β, hβ, heq⟩
    obtain ⟨rfl, rfl⟩ := Prod.mk.inj heq
    exact ⟨⟨i, hi, β, hβ, rfl⟩, i, hi, β, hβ, rfl, ht⟩
  · rintro ⟨-, i, hi, β, hβ, rfl, ht⟩
    exact ⟨(i, t), ⟨hi, ht⟩, β, hβ, rfl⟩

section Closure

variable (hfirst : ∀ i ∈ ps.closure I.core, ∀ s β, ps.rest i = .nonterminal s :: β →
  ps.Nullable β ∨ ∃ t, ps.Begins β t) (hfull : I.Full)

include hfirst hfull

lemma exists_lr1Closure (hi : i ∈ ps.closure I.core) : ∃ t, (i, t) ∈ ps.lr1Closure I.triples := by
  induction hi with
  | kernel hi =>
    obtain ⟨t, ht⟩ := hfull _ hi
    exact ⟨t, .kernel ⟨hi, ht⟩⟩
  | @opening i j s β hi hrest hj ih =>
    obtain ⟨a, ha⟩ := ih
    rcases hfirst i hi s β hrest with hβ | ⟨t, ht⟩
    · exact ⟨a, .opening ha hrest hj (begins_append_terminal.mpr (.inr ⟨hβ, rfl⟩))⟩
    · exact ⟨t, .opening ha hrest hj (begins_append_terminal.mpr (.inl ht))⟩

/-- The closure of a set in which every item has a lookahead, taken one lookahead at a time. -/
lemma lr1Closure_triples : ps.lr1Closure I.triples = (ps.closeSet I).triples := by
  ext ⟨i, t⟩
  constructor
  · intro h
    have hla : ∀ x, ps.Lr1Closure I.triples x → ps.Lookahead I x.1 x.2 := by
      intro x hx
      induction hx with
      | kernel hx => exact .kernel hx.1 hx.2
      | opening _ hrest hj ht ih =>
        rcases begins_append_terminal.mp ht with ht | ⟨hβ, rfl⟩
        · exact .ahead ih.mem_closure hrest hj ht
        · exact .inherited ih hrest hj hβ
    exact ⟨(hla _ h).mem_closure, hla _ h⟩
  · rintro ⟨-, h⟩
    have hla : ∀ {i t}, ps.Lookahead I i t → (i, t) ∈ ps.lr1Closure I.triples := by
      intro i t h
      induction h with
      | kernel hi ht => exact .kernel ⟨hi, ht⟩
      | ahead hi hrest hj ht =>
        obtain ⟨a, ha⟩ := exists_lr1Closure hfirst hfull hi
        exact .opening ha hrest hj (begins_append_terminal.mpr (.inl ht))
      | inherited _ hrest hj hβ ih =>
        exact .opening ih hrest hj (begins_append_terminal.mpr (.inr ⟨hβ, rfl⟩))
    exact hla h

lemma full_closeSet : (ps.closeSet I).Full := by
  intro i hi
  obtain ⟨t, ht⟩ := exists_lr1Closure hfirst hfull hi
  rw [lr1Closure_triples hfirst hfull] at ht
  exact ⟨t, ht.2⟩

end Closure

lemma full_gotoSet (h : I.Full) (part : Part) : (ps.gotoSet I part).Full := by
  rintro _ ⟨i, hi, β, hβ, rfl⟩
  obtain ⟨t, ht⟩ := h i hi
  exact ⟨t, i, hi, β, hβ, rfl, ht⟩

lemma nonempty_lr1Goto_iff (h : I.Full) :
    (ps.lr1Goto I.triples part).Nonempty ↔ (ps.gotoSet I part).core.Nonempty := by
  rw [lr1Goto_triples, ← (full_gotoSet h part).image_triples, Set.image_nonempty]

lemma full_startSet : startSet.Full := fun _ hi => ⟨SymbolId.eoi, hi, rfl⟩

lemma triples_startSet : startSet.triples = {(Dotted.start, SymbolId.eoi)} := by
  ext ⟨i, t⟩
  simp [ItemSet.triples, startSet]

section Productive

variable (hps : ps.Proper target) (hproductive : ∀ s, ps.InUse s → ps.Productive s)

include hps hproductive

/-- What stands behind a non-terminal after a dot vanishes or begins with some terminal. -/
lemma ReachableKernel.first (hK : ps.ReachableKernel K) : ∀ i ∈ ps.closure K, ∀ s β,
    ps.rest i = .nonterminal s :: β → ps.Nullable β ∨ ∃ t, ps.Begins β t := by
  intro i hi s β hrest
  refine nullable_or_begins fun u hu => hproductive u (hK.inUse hps hi ?_)
  rw [hrest]
  exact List.mem_cons_of_mem _ hu

lemma Canonical.lr1 (h : ps.Canonical I) : ps.CanonicalLr1 I.triples ∧ I.Full := by
  induction h with
  | start =>
    have hfirst := ReachableKernel.start.first hps hproductive
    rw [← lr1Closure_triples hfirst full_startSet, triples_startSet]
    exact ⟨.start, full_closeSet hfirst full_startSet⟩
  | @goto I part hI hne ih =>
    have hfirst := (hI.reachable_gotoSet hne).first hps hproductive
    have hfull : (ps.gotoSet I part).Full := full_gotoSet ih.2 part
    rw [← lr1Closure_triples hfirst hfull, ← lr1Goto_triples]
    exact ⟨.goto ih.1 ((nonempty_lr1Goto_iff ih.2).mpr hne), full_closeSet hfirst hfull⟩

lemma CanonicalLr1.exists_canonical {X : Set (Dotted × SymbolId)} (h : ps.CanonicalLr1 X) :
    ∃ I, ps.Canonical I ∧ I.triples = X := by
  induction h with
  | start =>
    have hfirst := ReachableKernel.start.first hps hproductive
    refine ⟨_, .start, ?_⟩
    rw [← lr1Closure_triples hfirst full_startSet, triples_startSet]
  | @goto X part _ hne ih =>
    obtain ⟨I, hI, rfl⟩ := ih
    have hfullI := (hI.lr1 hps hproductive).2
    have hne := (nonempty_lr1Goto_iff hfullI).mp hne
    have hfirst := (hI.reachable_gotoSet hne).first hps hproductive
    refine ⟨_, .goto hI hne, ?_⟩
    rw [← lr1Closure_triples hfirst (full_gotoSet hfullI part), ← lr1Goto_triples]

/-- Where every non-terminal in use derives a string of terminals, the LALR lookaheads are those
of the usual canonical collection. -/
lemma lalr_iff_canonicalLr1 : ps.Lalr K i t ↔
    ∃ X, ps.CanonicalLr1 X ∧ Prod.fst '' X = ps.closure K ∧ (i, t) ∈ X := by
  constructor
  · rintro ⟨I, hI, hcore, ht⟩
    obtain ⟨hX, hfull⟩ := hI.lr1 hps hproductive
    exact ⟨I.triples, hX, hfull.image_triples.trans hcore, hI.mem_core ht, ht⟩
  · rintro ⟨X, hX, hcore, ht⟩
    obtain ⟨I, hI, rfl⟩ := hX.exists_canonical hps hproductive
    rw [(hI.lr1 hps hproductive).2.image_triples] at hcore
    exact ⟨I, hI, hcore, ht.2⟩

end Productive

end Productions

end ShiftReduce
