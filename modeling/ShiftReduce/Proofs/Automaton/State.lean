import ShiftReduce.Proofs.Automaton.Closure
import Mathlib.Data.List.Sort
/-!
# The items of a state

A state is justified when its kernel is a reachable one, its closure holds only what is demanded by
items of the LR(0) closure, and all its lookaheads are LALR lookaheads. Completing the closure of a
justified state gives exactly the items of the LR(0) closure, each once, and the kernels of its
successors are the sets entered over the parts after the dots.

Main statements: `State.Justified.image_items`, `State.Justified.close` and
`State.Justified.successor`.
-/

namespace ShiftReduce

/-! ## Sorting -/

namespace Item

lemma insert_eq (item : Item) (items : List Item) :
    insert item items = items.orderedInsert (fun a b => a.key ≤ b.key) item := by
  induction items with
  | nil => rfl
  | cons other items ih => rw [insert, List.orderedInsert_cons, ih]

lemma sort_eq (items : List Item) :
    sort items = items.insertionSort (fun a b => a.key ≤ b.key) := by
  induction items with
  | nil => rfl
  | cons item items ih =>
    rw [List.insertionSort_cons, ← ih, ← insert_eq]
    rfl

lemma perm_sort (items : List Item) : (sort items).Perm items := by
  rw [sort_eq]
  exact List.perm_insertionSort _ _

lemma sorted_sort (items : List Item) : ((sort items).map key).Pairwise (· ≤ ·) := by
  rw [sort_eq, List.pairwise_map]
  have : Std.Total (fun a b : Item => a.key ≤ b.key) := ⟨fun a b => Nat.le_total a.key b.key⟩
  have : IsTrans Item (fun a b : Item => a.key ≤ b.key) :=
    ⟨fun _ _ _ hab hbc => Nat.le_trans hab hbc⟩
  exact List.pairwise_insertionSort _ _

/-- Items of different keys are sorted in strictly ascending order. -/
lemma pairwise_sort {items : List Item} (h : (items.map key).Nodup) :
    ((sort items).map key).Pairwise (· < ·) := by
  have hne : ((sort items).map key).Pairwise (· ≠ ·) := ((perm_sort items).map key).nodup_iff.mpr h
  exact (sorted_sort items).imp₂ (fun _ _ h₁ h₂ => Nat.lt_of_le_of_ne h₁ h₂) hne

end Item

namespace State

/-! ## Groups -/

section Groups

variable {groups : List (Part × List Item)} {part q : Part} {item : Item}

lemma lookup_addToGroup : (addToGroup groups part item).lookup q =
    if q = part then some ((groups.lookup part).getD [] ++ [item]) else groups.lookup q := by
  induction groups with
  | nil =>
    by_cases hq : q = part
    · simp [addToGroup, hq]
    · simp [addToGroup, List.lookup_cons, hq, beq_eq_false_iff_ne.mpr hq]
  | cons x groups ih =>
    obtain ⟨p, items⟩ := x
    rw [addToGroup]
    by_cases hp : p = part
    · subst hp
      by_cases hq : q = p
      · simp [hq]
      · simp [List.lookup_cons, hq, beq_eq_false_iff_ne.mpr hq]
    · have hp' : (part == p) = false := beq_eq_false_iff_ne.mpr fun h => hp h.symm
      by_cases hq : q = p
      · simp [hq, hp]
      · simp [List.lookup_cons, hp, hp', ih, beq_eq_false_iff_ne.mpr hq]

lemma map_fst_addToGroup : (addToGroup groups part item).map Prod.fst =
    if part ∈ groups.map Prod.fst then groups.map Prod.fst else groups.map Prod.fst ++ [part] := by
  induction groups with
  | nil => simp [addToGroup]
  | cons x groups ih =>
    rw [addToGroup]
    by_cases hs : x.1 = part
    · simp [hs]
    · have hs' : ¬ part = x.1 := fun h => hs h.symm
      simp only [hs, if_false, List.map_cons, ih, List.mem_cons, hs', false_or]
      split <;> simp

lemma ne_nil_of_mem_addToGroup (h : ∀ x ∈ groups, x.2 ≠ []) :
    ∀ x ∈ addToGroup groups part item, x.2 ≠ [] := by
  induction groups with
  | nil => simp [addToGroup]
  | cons x groups ih =>
    obtain ⟨hx, hgroups⟩ := List.forall_mem_cons.mp h
    rw [addToGroup]
    split
    · exact List.forall_mem_cons.mpr ⟨by simp, hgroups⟩
    · exact List.forall_mem_cons.mpr ⟨hx, ih hgroups⟩

lemma mem_of_lookup {α β : Type} [BEq α] [LawfulBEq α] {l : List (α × β)} {a : α} {b : β}
    (h : l.lookup a = some b) : (a, b) ∈ l := by
  obtain ⟨l₁, l₂, rfl, -⟩ := List.lookup_eq_some_iff.mp h
  simp

lemma lookup_of_mem {α β : Type} [DecidableEq α] {l : List (α × β)} {a : α} {b : β}
    (hl : (l.map Prod.fst).Nodup) (h : (a, b) ∈ l) : l.lookup a = some b := by
  obtain ⟨l₁, l₂, rfl⟩ := List.append_of_mem h
  refine List.lookup_eq_some_iff.mpr ⟨l₁, l₂, rfl, fun p hp => ?_⟩
  rw [List.map_append, List.nodup_append] at hl
  have := hl.2.2 p.1 (List.mem_map_of_mem hp) a (by simp)
  simpa using fun h => this h.symm

/-- The items entered over a part, in the order of the items they come from. -/
def shifted (b : Basis) (items : List Item) (part : Part) : List Item :=
  items.filterMap fun item =>
    if (b.remaining item.key).head? = some part then some (b.advance item) else none

/-- Adds an item, advanced, to the group of the part after its dot. -/
def group (b : Basis) (groups : List (Part × List Item)) (item : Item) : List (Part × List Item) :=
  match b.remaining item.key with
  | part :: _ => addToGroup groups part (b.advance item)
  | [] => groups

variable {b : Basis} {items : List Item}

lemma lookup_foldl_group (b : Basis) (items : List Item) (groups : List (Part × List Item))
    (q : Part) : ((items.foldl (group b) groups).lookup q).getD [] =
    (groups.lookup q).getD [] ++ shifted b items q := by
  induction items generalizing groups with
  | nil => simp [shifted]
  | cons item items ih =>
    rw [List.foldl_cons, ih, group]
    cases h : b.remaining item.key with
    | nil => simp [shifted, h]
    | cons part β =>
      by_cases hq : q = part
      · simp [shifted, h, lookup_addToGroup, hq]
      · have hq' : ¬ part = q := fun h => hq h.symm
        simp [shifted, h, lookup_addToGroup, hq, hq']

lemma foldl_group_induction {P : List (Part × List Item) → Prop}
    (hadd : ∀ groups part item, P groups → P (addToGroup groups part item)) (h : P groups) :
    P (items.foldl (group b) groups) := by
  induction items generalizing groups with
  | nil => exact h
  | cons item items ih =>
    refine ih ?_
    rw [group]
    split
    · exact hadd _ _ _ h
    · exact h

end Groups

section Successors

variable {b : Basis} {st : State} {part : Part} {k : List Item}

lemma successors_eq (b : Basis) (st : State) :
    st.successors b = ((st.items b).foldl (group b) []).map fun g => (g.1, Item.sort g.2) := rfl

lemma nodup_groups (items : List Item) : ((items.foldl (group b) []).map Prod.fst).Nodup := by
  refine foldl_group_induction (P := fun g => (g.map Prod.fst).Nodup) (fun g part item h => ?_)
    List.nodup_nil
  rw [map_fst_addToGroup]
  split
  · exact h
  · exact List.nodup_append.mpr ⟨h, List.nodup_singleton _, by aesop⟩

lemma nodup_successors (b : Basis) (st : State) : ((st.successors b).map Prod.fst).Nodup := by
  rw [successors_eq, List.map_map]
  exact nodup_groups (st.items b)

/-- The successors are the sets entered over the parts after the dots. -/
lemma mem_successors : (part, k) ∈ st.successors b ↔
    shifted b (st.items b) part ≠ [] ∧ Item.sort (shifted b (st.items b) part) = k := by
  have hlookup := lookup_foldl_group b (st.items b) [] part
  rw [List.lookup_nil, Option.getD_none, List.nil_append] at hlookup
  rw [successors_eq, List.mem_map]
  constructor
  · rintro ⟨⟨p, items⟩, hmem, heq⟩
    obtain ⟨rfl, rfl⟩ := Prod.mk.inj heq
    rw [lookup_of_mem (nodup_groups _) hmem, Option.getD_some] at hlookup
    rw [← hlookup]
    exact ⟨foldl_group_induction (P := fun g => ∀ x ∈ g, x.2 ≠ [])
      (fun _ _ _ => ne_nil_of_mem_addToGroup) (by simp) _ hmem, rfl⟩
  · rintro ⟨hne, rfl⟩
    cases hl : ((st.items b).foldl (group b) []).lookup part with
    | none =>
      rw [hl] at hlookup
      exact absurd hlookup.symm hne
    | some items =>
      rw [hl, Option.getD_some] at hlookup
      exact ⟨(part, items), mem_of_lookup hl, by rw [hlookup]⟩

end Successors

/-! ## Justified states -/

end State

/-- The LR(0) items of some keys. -/
def Basis.dottedSet (b : Basis) (keys : List Nat) : Set Dotted :=
  {i | ∃ key ∈ keys, b.dotted key = i}

/-- The symbol stands after a dot in the closure, and the terminals may follow it there. -/
def Productions.Wanted (ps : Productions) (K : Set Dotted) (s : SymbolId) (set : TerminalSet) :
    Prop :=
  (∃ i ∈ ps.closure K, ∃ β, ps.rest i = .nonterminal s :: β) ∧
    ∀ t ∈ set, t < ps.width ∧ ∀ j, ps.Opening s j → ps.Lalr K j t

namespace State

/-- The LR(0) items of the kernel. -/
def kernelSet (ps : Productions) (st : State) : Set Dotted := ps.basis.dottedSet st.core

/-- The state is one of the LALR automaton as far as it is known. -/
structure Justified (ps : Productions) (st : State) : Prop where
  sorted : st.core.Pairwise (· < ·)
  reachable : ps.ReachableKernel (st.kernelSet ps)
  kernel : ∀ item ∈ st.kernel, ∀ t ∈ item.lookaheads,
    ps.Lalr (st.kernelSet ps) (ps.basis.dotted item.key) t
  nodup : (st.closure.map Prod.fst).Nodup
  closure : ∀ x ∈ st.closure, ps.Wanted (st.kernelSet ps) x.1 x.2

variable {ps : Productions} {target : SymbolId} {st : State} {item : Item}

lemma dotted_mem_kernelSet (ps : Productions) (h : item ∈ st.kernel) :
    ps.basis.dotted item.key ∈ st.kernelSet ps :=
  ⟨item.key, List.mem_map_of_mem h, rfl⟩

lemma exists_of_mem_kernelSet {i : Dotted} (h : i ∈ st.kernelSet ps) :
    ∃ item ∈ st.kernel, ps.basis.dotted item.key = i := by
  obtain ⟨key, hkey, rfl⟩ := h
  obtain ⟨item, hitem, rfl⟩ := List.mem_map.mp hkey
  exact ⟨item, hitem, rfl⟩

lemma wanted_of_demand (hps : ps.Proper target) {K : Set Dotted} (hK : ps.ReachableKernel K)
    (hmem : ps.basis.dotted item.key ∈ ps.closure K)
    (hla : ∀ t ∈ item.lookaheads, ps.Lalr K (ps.basis.dotted item.key) t)
    {demand : SymbolId × TerminalSet} (h : ps.basis.demand? item = some demand) :
    ps.Wanted K demand.1 demand.2 := by
  obtain ⟨s, set⟩ := demand
  obtain ⟨β, hrest, rfl⟩ := Productions.demand?_eq_some_iff.mp h
  refine ⟨⟨_, hmem, β, hrest⟩, fun t ht => ?_⟩
  rcases (Productions.mem_ahead hps hrest).mp ht with ht | ⟨hβ, ht⟩
  · exact ⟨ht.lt_width hps (hps.symbol_lt_of_rest hrest).2,
      fun j hj => .ahead hK hmem hrest hj ht⟩
  · exact ⟨(hla t ht).lt_width hps, fun j hj => (hla t ht).inherited hrest hj hβ⟩

namespace Justified

lemma tidy (hps : ps.Proper target) (h : st.Justified ps) : st.Tidy ps.width := by
  refine ⟨fun item hitem t ht => (h.kernel item hitem t ht).lt_width hps, h.nodup, ?_⟩
  intro x hx
  obtain ⟨⟨i, -, β, hrest⟩, hset⟩ := h.closure x hx
  exact ⟨(hps.symbol_lt_of_rest hrest).1, fun t ht => (hset t ht).1⟩

/-- Every item of the state is one of the LR(0) closure, with LALR lookaheads only. -/
lemma mem_items (hps : ps.Proper target) (hk : ps.KeysFit) (h : st.Justified ps)
    (hitem : item ∈ st.items ps.basis) :
    ps.basis.dotted item.key ∈ ps.closure (st.kernelSet ps) ∧
      ∀ t ∈ item.lookaheads, ps.Lalr (st.kernelSet ps) (ps.basis.dotted item.key) t := by
  rcases List.mem_append.mp hitem with hitem | hitem
  · exact ⟨Productions.subset_closure _ (dotted_mem_kernelSet ps hitem), h.kernel item hitem⟩
  · obtain ⟨⟨s, set⟩, hx, hitem⟩ := List.mem_flatMap.mp hitem
    obtain ⟨⟨i, hi, β, hrest⟩, hset⟩ := h.closure _ hx
    have hopen := Productions.opening_of_mem_openings hps hk hitem
    rw [Productions.lookaheads_of_mem_openings hitem]
    exact ⟨Productions.mem_closure_opening hi hrest hopen, fun t ht => (hset t ht).2 _ hopen⟩

lemma wanted_union {K : Set Dotted} {s : SymbolId} {a b : TerminalSet} (ha : ps.Wanted K s a)
    (hb : ps.Wanted K s b) : ps.Wanted K s (a.union b) := by
  refine ⟨ha.1, fun t ht => ?_⟩
  rcases TerminalSet.mem_union.mp ht with ht | ht
  · exact ha.2 t ht
  · exact hb.2 t ht

lemma kernelSet_close (ps : Productions) (st : State) :
    (st.close ps.basis).kernelSet ps = st.kernelSet ps := by
  simp only [kernelSet, core, kernel_close]

/-- Completing the closure keeps a state justified. -/
protected lemma close (hps : ps.Proper target) (hk : ps.KeysFit) (h : st.Justified ps) :
    (st.close ps.basis).Justified ps where
  sorted := by
    rw [core, kernel_close]
    exact h.sorted
  reachable := by
    rw [kernelSet_close]
    exact h.reachable
  kernel := by
    rw [kernelSet_close, kernel_close]
    exact h.kernel
  nodup := ((h.tidy hps).close hps).2.1
  closure := by
    rw [kernelSet_close]
    refine close_induction (P := ps.Wanted (st.kernelSet ps)) (fun _ _ _ => wanted_union) ?_ ?_
      h.closure
    · rintro s set ⟨⟨i, hi, β, hrest⟩, hset⟩ item hitem d hd
      have hopen := Productions.opening_of_mem_openings hps hk hitem
      refine wanted_of_demand hps h.reachable
        (Productions.mem_closure_opening hi hrest hopen) ?_ hd
      rw [Productions.lookaheads_of_mem_openings hitem]
      exact fun t ht => (hset t ht).2 _ hopen
    · intro item hitem d hd
      exact wanted_of_demand hps h.reachable
        (Productions.subset_closure _ (dotted_mem_kernelSet ps hitem)) (h.kernel item hitem) hd

/-! ## The items of a completed state -/

/-- No item of a state comes twice. -/
lemma nodup_items (hps : ps.Proper target) (hk : ps.KeysFit) (h : st.Justified ps) :
    ((st.items ps.basis).map Item.key).Nodup := by
  have hopening : ∀ {x : SymbolId × TerminalSet} {key : Nat},
      key ∈ (ps.basis.openings x.1 x.2).map Item.key → ps.Opening x.1 (ps.basis.dotted key) := by
    rintro x key hkey
    obtain ⟨item, hitem, rfl⟩ := List.mem_map.mp hkey
    exact Productions.opening_of_mem_openings hps hk hitem
  rw [items, List.map_append, List.map_flatMap]
  refine List.nodup_append.mpr ⟨h.sorted.imp Nat.ne_of_lt, List.nodup_flatMap.mpr ⟨?_, ?_⟩, ?_⟩
  · -- the openings of one symbol
    intro x _
    rw [Basis.openings, List.map_map]
    refine List.Nodup.map_on (fun p hp q hq heq => ?_) List.nodup_range'
    have hp' : ps.Opening x.1 ⟨p, 0⟩ := ⟨rfl, hps.mem_range.mp hp⟩
    have hq' : ps.Opening x.1 ⟨q, 0⟩ := ⟨rfl, hps.mem_range.mp hq⟩
    have := congrArg ps.basis.dotted heq
    rw [Function.comp, Function.comp, Productions.dotted_key (i := ⟨p, 0⟩) hk hp'.isDotted,
      Productions.dotted_key (i := ⟨q, 0⟩) hk hq'.isDotted] at this
    exact congrArg Dotted.production this
  · -- openings of two symbols would begin one production
    refine (List.pairwise_map.mp h.nodup).imp fun {x y} hxy => ?_
    intro key hx hy
    obtain ⟨-, prod, hprod, hlhs⟩ := hopening hx
    obtain ⟨-, prod', hprod', hlhs'⟩ := hopening hy
    rw [hprod, Option.some.injEq] at hprod'
    exact hxy (hlhs.symm.trans ((congrArg Production.lhs hprod').trans hlhs'))
  · -- the kernel has no openings, except for the one of `^`
    rintro key hkernel _ hkey rfl
    obtain ⟨x, hx, hkey⟩ := List.mem_flatMap.mp hkey
    obtain ⟨⟨i, -, β, hrest⟩, -⟩ := h.closure x hx
    have hopen := hopening hkey
    rcases h.reachable.start_or_moved ⟨key, hkernel, rfl⟩ with hstart | hpos
    · exact hps.opening_ne_start hrest hopen (by rw [hstart]; rfl)
    · have := hopen.1
      omega

/-- Where the demands for symbols with productions are met, every item of the LR(0) closure has its
place. -/
lemma exists_item_of_met (hps : ps.Proper target) (hk : ps.KeysFit)
    (hmet : ∀ item ∈ st.items ps.basis, ∀ demand, ps.basis.demand? item = some demand →
      ps.range demand.1 ≠ [] → Met st.closure demand)
    {i : Dotted} (hi : i ∈ ps.closure (st.kernelSet ps)) :
    ∃ item ∈ st.items ps.basis, ps.basis.dotted item.key = i := by
  induction hi with
  | kernel hi =>
    obtain ⟨item, hitem, rfl⟩ := exists_of_mem_kernelSet hi
    exact ⟨item, List.mem_append_left _ hitem, rfl⟩
  | opening _ hrest hj ih =>
    obtain ⟨item, hitem, rfl⟩ := ih
    obtain ⟨set, hset, -⟩ := hmet item hitem _ (Productions.demand?_eq_some_iff.mpr ⟨_, hrest, rfl⟩)
      (List.ne_nil_of_mem (hps.mem_range.mpr hj.2))
    obtain ⟨item', hitem', hdotted, -⟩ := Productions.exists_opening hps hk set hj
    exact ⟨item', List.mem_append_right _ (List.mem_flatMap.mpr ⟨_, hset, hitem'⟩), hdotted⟩

/-- In a completed state every item of the LR(0) closure has its place. -/
lemma exists_item (hps : ps.Proper target) (hk : ps.KeysFit) (hclosed : st.Closed ps.basis)
    {i : Dotted} (hi : i ∈ ps.closure (st.kernelSet ps)) :
    ∃ item ∈ st.items ps.basis, ps.basis.dotted item.key = i :=
  exists_item_of_met hps hk (fun item hitem demand hdemand _ => hclosed item hitem demand hdemand)
    hi

/-- The items of a completed state are those of the LR(0) closure. -/
lemma image_items (hps : ps.Proper target) (hk : ps.KeysFit) (h : st.Justified ps)
    (hclosed : st.Closed ps.basis) :
    ps.basis.dottedSet ((st.items ps.basis).map Item.key) = ps.closure (st.kernelSet ps) := by
  ext i
  constructor
  · rintro ⟨key, hkey, rfl⟩
    obtain ⟨item, hitem, rfl⟩ := List.mem_map.mp hkey
    exact (h.mem_items hps hk hitem).1
  · intro hi
    obtain ⟨item, hitem, rfl⟩ := exists_item hps hk hclosed hi
    exact ⟨item.key, List.mem_map_of_mem hitem, rfl⟩

/-! ## Successors -/

lemma mem_shifted {part : Part} {items : List Item} :
    item ∈ shifted ps.basis items part ↔ ∃ item' ∈ items,
      (∃ β, ps.rest (ps.basis.dotted item'.key) = part :: β) ∧ ps.basis.advance item' = item := by
  simp only [shifted, List.mem_filterMap, Option.ite_none_right_eq_some, Option.some.injEq,
    Productions.remaining_eq_rest, List.head?_eq_some_iff]

/-- The items entered over a part have different keys. -/
lemma nodup_shifted (hk : ps.KeysFit) {items : List Item} (h : (items.map Item.key).Nodup)
    (part : Part) : ((shifted ps.basis items part).map Item.key).Nodup := by
  rw [List.Nodup, List.pairwise_map] at h ⊢
  refine List.Pairwise.filterMap _ (fun a a' hne b hb b' hb' heq => hne ?_) h
  simp only [Option.ite_none_right_eq_some, Option.some.injEq, Productions.remaining_eq_rest,
    List.head?_eq_some_iff] at hb hb'
  obtain ⟨⟨β, hβ⟩, rfl⟩ := hb
  obtain ⟨⟨β', hβ'⟩, rfl⟩ := hb'
  have := congrArg ps.basis.dotted heq
  rw [Productions.dotted_advance hk hβ, Productions.dotted_advance hk hβ'] at this
  exact ps.dotted_injective (Dotted.advance_injective this)

variable {part : Part} {k : List Item}

/-- The kernel entered over a part is the set of LR(0) items entered over it. -/
lemma kernelSet_successor (hps : ps.Proper target) (hk : ps.KeysFit) (h : st.Justified ps)
    (hclosed : st.Closed ps.basis) (hmem : (part, k) ∈ st.successors ps.basis) :
    (ofKernel k).kernelSet ps = ps.goto (ps.closure (st.kernelSet ps)) part := by
  obtain ⟨-, rfl⟩ := mem_successors.mp hmem
  ext j
  constructor
  · intro hj
    obtain ⟨item, hitem, rfl⟩ := exists_of_mem_kernelSet hj
    obtain ⟨item', hitem', ⟨β, hβ⟩, rfl⟩ := mem_shifted.mp ((Item.perm_sort _).mem_iff.mp hitem)
    exact ⟨_, (h.mem_items hps hk hitem').1, β, hβ, (Productions.dotted_advance hk hβ).symm⟩
  · rintro ⟨i, hi, β, hβ, rfl⟩
    obtain ⟨item, hitem, rfl⟩ := exists_item hps hk hclosed hi
    have hshifted := mem_shifted.mpr ⟨item, hitem, ⟨β, hβ⟩, rfl⟩
    rw [← Productions.dotted_advance hk hβ]
    exact dotted_mem_kernelSet ps ((Item.perm_sort _).mem_iff.mpr hshifted)

lemma successor_ne_nil (hmem : (part, k) ∈ st.successors ps.basis) : k ≠ [] := by
  obtain ⟨hne, rfl⟩ := mem_successors.mp hmem
  intro h
  have := (Item.perm_sort (shifted ps.basis (st.items ps.basis) part)).length_eq
  rw [h] at this
  exact hne (List.length_eq_zero_iff.mp this.symm)

/-- The kernels entered from a completed state are justified. -/
lemma successor (hps : ps.Proper target) (hk : ps.KeysFit) (h : st.Justified ps)
    (hclosed : st.Closed ps.basis) (hmem : (part, k) ∈ st.successors ps.basis) :
    (ofKernel k).Justified ps where
  sorted := by
    obtain ⟨-, rfl⟩ := mem_successors.mp hmem
    exact Item.pairwise_sort (nodup_shifted hk (h.nodup_items hps hk) part)
  reachable := by
    have hset := kernelSet_successor hps hk h hclosed hmem
    obtain ⟨item, hitem⟩ := List.exists_mem_of_ne_nil _ (successor_ne_nil hmem)
    rw [hset]
    exact .goto h.reachable (hset ▸ ⟨_, dotted_mem_kernelSet ps hitem⟩)
  kernel := by
    rw [kernelSet_successor hps hk h hclosed hmem]
    obtain ⟨-, rfl⟩ := mem_successors.mp hmem
    intro item hitem t ht
    obtain ⟨item', hitem', ⟨β, hβ⟩, rfl⟩ := mem_shifted.mp ((Item.perm_sort _).mem_iff.mp hitem)
    rw [Productions.dotted_advance hk hβ]
    exact ((h.mem_items hps hk hitem').2 t ht).goto hβ
  nodup := List.nodup_nil
  closure := by simp [ofKernel]

/-- An item with a part after its dot is handed on to the kernel entered over that part. -/
lemma exists_successor (hk : ps.KeysFit) (hitem : item ∈ st.items ps.basis) {β : List Part}
    (hβ : ps.rest (ps.basis.dotted item.key) = part :: β) :
    ∃ k, (part, k) ∈ st.successors ps.basis ∧ ∃ item' ∈ k,
      ps.basis.dotted item'.key = (ps.basis.dotted item.key).advance ∧
        item'.lookaheads = item.lookaheads := by
  have hshifted := mem_shifted.mpr ⟨item, hitem, ⟨β, hβ⟩, rfl⟩
  exact ⟨_, mem_successors.mpr ⟨List.ne_nil_of_mem hshifted, rfl⟩, _,
    (Item.perm_sort _).mem_iff.mpr hshifted, Productions.dotted_advance hk hβ, rfl⟩

end Justified

end State

end ShiftReduce
