import ShiftReduce.Proofs.Automaton.Order
import ShiftReduce.Proofs.Automaton.State
/-!
# The least closure

A closure is complete for a kernel when its symbols come in order, every item finds its demand met,
and nothing is in it that an item does not ask for. There is one such closure for a kernel, and it
has for each symbol the lookaheads that the theory gives. Completing the closure of a state leads to
it, from nothing or from what an earlier completion found for smaller lookaheads.

Main statements: `Productions.Completes.eq`, `Productions.Completes.isLeast` and
`State.Sound.completes`.
-/

namespace ShiftReduce

/-- The key is the same, and there are no fewer lookaheads. -/
def Item.Below (item item' : Item) : Prop :=
  item.key = item'.key ∧ ∀ t ∈ item.lookaheads, t ∈ item'.lookaheads

lemma Item.map_key_of_below {items items' : List Item} (h : List.Forall₂ Item.Below items items') :
    items.map Item.key = items'.map Item.key := by
  induction h with
  | nil => rfl
  | cons hx _ ih => rw [List.map_cons, List.map_cons, hx.1, ih]

lemma Item.exists_below {items items' : List Item} (h : List.Forall₂ Item.Below items items')
    {item : Item} (hitem : item ∈ items) : ∃ item' ∈ items', item.Below item' := by
  induction h with
  | nil => cases hitem
  | cons hx _ ih =>
    rcases List.mem_cons.mp hitem with rfl | hitem
    · exact ⟨_, List.mem_cons_self, hx⟩
    · obtain ⟨item', hitem', hbelow⟩ := ih hitem
      exact ⟨item', List.mem_cons_of_mem _ hitem', hbelow⟩

namespace Productions

/-- Items with which a state may be entered: no two are the same, and none begins a production
other than that of `^`. -/
structure IsKernel (ps : Productions) (kernel : List Item) : Prop where
  sorted : (kernel.map Item.key).Pairwise (· < ·)
  start_or_moved : ∀ item ∈ kernel, ps.basis.dotted item.key = Dotted.start ∨
    0 < (ps.basis.dotted item.key).dot
  lt_width : ∀ item ∈ kernel, ∀ t ∈ item.lookaheads, t < ps.width

/-- The items of a kernel with their lookaheads. -/
def itemSet (ps : Productions) (kernel : List Item) : ItemSet where
  core := ps.basis.dottedSet (kernel.map Item.key)
  lookaheads i := {t | ∃ item ∈ kernel, ps.basis.dotted item.key = i ∧ t ∈ item.lookaheads}

/-- The entries of a closure that have items are these: one for each symbol with productions that a
dot comes to stand before, its items are all its productions, in order, and their lookaheads the
least ones. -/
structure IsLeast (ps : Productions) (kernel : List Item) (c : List (SymbolId × TerminalSet)) :
    Prop where
  nodup : (c.map Prod.fst).Nodup
  mem_iff : ∀ s, s ∈ c.map Prod.fst ↔ (∃ j, ps.Opening s j) ∧
    ∃ i ∈ ps.closure (ps.itemSet kernel).core, ∃ β, ps.rest i = .nonterminal s :: β
  openings : ∀ x ∈ c, ∃ numbers : List Nat, numbers.Pairwise (· < ·) ∧
    (∀ p, p ∈ numbers ↔ ps.Opening x.1 ⟨p, 0⟩) ∧
    ps.basis.openings x.1 x.2 = numbers.map fun p => ⟨ps.basis.key p 0, x.2⟩
  lookaheads : ∀ x ∈ c, ∀ j, ps.Opening x.1 j →
    ∀ t, t ∈ x.2 ↔ ps.Lookahead (ps.itemSet kernel) j t

/-- The symbol stands after a dot, and the terminals may follow it there. -/
def Owed (ps : Productions) (I : ItemSet) (s : SymbolId) (set : TerminalSet) : Prop :=
  (∃ i ∈ ps.closure I.core, ∃ β, ps.rest i = .nonterminal s :: β) ∧
    ∀ t ∈ set, ∀ j, ps.Opening s j → ps.Lookahead I j t

/-- The closure is what it takes to meet the demands of the kernel, and no more. -/
structure Completes (ps : Productions) (kernel : List Item) (c : List (SymbolId × TerminalSet)) :
    Prop where
  found : Found (ps.basis.nextSymbol (kernel.map Item.key)) (c.map Prod.fst)
  met : ∀ item ∈ kernel ++ c.flatMap fun x => ps.basis.openings x.1 x.2, ∀ demand,
    ps.basis.demand? item = some demand → ps.range demand.1 ≠ [] → Met c demand
  owed : ∀ x ∈ c, ps.Owed (ps.itemSet kernel) x.1 x.2

variable {ps : Productions} {target s t : SymbolId} {kernel kernel' : List Item} {item : Item}
  {c : List (SymbolId × TerminalSet)} {I : ItemSet} {i j : Dotted} {set : TerminalSet}

/-! ## What items ask for -/

lemma owed_union {a b : TerminalSet} (ha : ps.Owed I s a) (hb : ps.Owed I s b) :
    ps.Owed I s (a.union b) := by
  refine ⟨ha.1, fun t ht => ?_⟩
  rcases TerminalSet.mem_union.mp ht with ht | ht
  · exact ha.2 t ht
  · exact hb.2 t ht

lemma IsKernel.of_below (h : ps.IsKernel kernel')
    (hbelow : List.Forall₂ Item.Below kernel kernel') : ps.IsKernel kernel where
  sorted := Item.map_key_of_below hbelow ▸ h.sorted
  start_or_moved item hitem := by
    obtain ⟨item', hitem', hkey, -⟩ := Item.exists_below hbelow hitem
    rw [hkey]
    exact h.start_or_moved item' hitem'
  lt_width item hitem t ht := by
    obtain ⟨item', hitem', -, hsub⟩ := Item.exists_below hbelow hitem
    exact h.lt_width item' hitem' t (hsub t ht)

/-- With more lookaheads in the kernel no less is owed. -/
lemma Owed.of_below (h : ps.Owed (ps.itemSet kernel) s set)
    (hbelow : List.Forall₂ Item.Below kernel kernel') : ps.Owed (ps.itemSet kernel') s set := by
  have hcore : (ps.itemSet kernel).core = (ps.itemSet kernel').core :=
    congrArg ps.basis.dottedSet (Item.map_key_of_below hbelow)
  have hmono : ∀ {i t}, ps.Lookahead (ps.itemSet kernel) i t →
      ps.Lookahead (ps.itemSet kernel') i t := by
    intro i t ht
    induction ht with
    | kernel hi ht =>
      obtain ⟨item, hitem, hdotted, ht⟩ := ht
      obtain ⟨item', hitem', hkey, hsub⟩ := Item.exists_below hbelow hitem
      exact .kernel (hcore ▸ hi) ⟨item', hitem', hkey ▸ hdotted, hsub _ ht⟩
    | ahead hi hrest hj ht => exact .ahead (hcore ▸ hi) hrest hj ht
    | inherited _ hrest hj hβ ih => exact .inherited ih hrest hj hβ
  obtain ⟨⟨i, hi, hrest⟩, hset⟩ := h
  exact ⟨⟨i, hcore ▸ hi, hrest⟩, fun t ht j hj => hmono (hset t ht j hj)⟩

lemma range_ne_nil_iff (hps : ps.Proper target) : ps.range s ≠ [] ↔ ∃ j, ps.Opening s j := by
  constructor
  · intro hne
    obtain ⟨p, hp⟩ := List.exists_mem_of_ne_nil _ hne
    exact ⟨⟨p, 0⟩, rfl, hps.mem_range.mp hp⟩
  · rintro ⟨j, -, hj⟩
    exact List.ne_nil_of_mem (hps.mem_range.mpr hj)

namespace Completes

lemma nodup (h : ps.Completes kernel c) : (c.map Prod.fst).Nodup :=
  h.found.nodup fun _ _ hnext => (Basis.calls?_of_nextSymbol hnext).2

lemma range_ne_nil (h : ps.Completes kernel c) (hs : s ∈ c.map Prod.fst) : ps.range s ≠ [] := by
  refine h.found.forall_mem (P := fun s => ps.range s ≠ []) (fun l s hnext => ?_) s hs
  obtain ⟨⟨key, -, hcalls⟩, -⟩ := Basis.calls?_of_nextSymbol hnext
  exact (Basis.calls?_eq_some_iff.mp hcalls).2

/-- Nothing comes behind a complete closure. -/
lemma nextSymbol_eq_none (h : ps.Completes kernel c) :
    ps.basis.nextSymbol (kernel.map Item.key) (c.map Prod.fst) = none := by
  refine Basis.nextSymbol_eq_none_iff.mpr fun key hkey s hs => ?_
  rw [← Basis.map_key_items] at hkey
  obtain ⟨item, hitem, rfl⟩ := List.mem_map.mp hkey
  obtain ⟨set, hset⟩ := Basis.demand?_isSome_of_calls? hs
  obtain ⟨set', hmem, -⟩ := h.met item hitem _ hset (Basis.calls?_eq_some_iff.mp hs).2
  exact List.mem_map_of_mem hmem

end Completes

section Items

variable (hps : ps.Proper target)

include hps

lemma owed_of_demand (hmem : ps.basis.dotted item.key ∈ ps.closure I.core)
    (hla : ∀ t ∈ item.lookaheads, ps.Lookahead I (ps.basis.dotted item.key) t)
    {demand : SymbolId × TerminalSet} (h : ps.basis.demand? item = some demand) :
    ps.Owed I demand.1 demand.2 := by
  obtain ⟨s, set⟩ := demand
  obtain ⟨β, hrest, rfl⟩ := demand?_eq_some_iff.mp h
  refine ⟨⟨_, hmem, β, hrest⟩, fun t ht j hj => ?_⟩
  rcases (mem_ahead hps hrest).mp ht with ht | ⟨hβ, ht⟩
  · exact .ahead hmem hrest hj ht
  · exact .inherited (hla t ht) hrest hj hβ

lemma owed_of_kernel (hitem : item ∈ kernel) {demand : SymbolId × TerminalSet}
    (h : ps.basis.demand? item = some demand) :
    ps.Owed (ps.itemSet kernel) demand.1 demand.2 := by
  have hcore : ps.basis.dotted item.key ∈ (ps.itemSet kernel).core :=
    ⟨item.key, List.mem_map_of_mem hitem, rfl⟩
  exact owed_of_demand hps (subset_closure _ hcore)
    (fun t ht => .kernel hcore ⟨item, hitem, rfl, ht⟩) h

/-- No item of a kernel begins a production of a symbol that a dot stands before. -/
lemma IsKernel.not_opening (h : ps.IsKernel kernel) (hitem : item ∈ kernel)
    {β : List Part} (hrest : ps.rest i = .nonterminal s :: β) :
    ¬ ps.Opening s (ps.basis.dotted item.key) := by
  intro hopen
  rcases h.start_or_moved item hitem with hstart | hpos
  · exact hps.opening_ne_start hrest hopen (by rw [hstart]; rfl)
  · have := hopen.1
    omega

variable (hk : ps.KeysFit)

include hk

lemma owed_of_openings (howed : ps.Owed I s set) (hitem : item ∈ ps.basis.openings s set)
    {demand : SymbolId × TerminalSet} (h : ps.basis.demand? item = some demand) :
    ps.Owed I demand.1 demand.2 := by
  obtain ⟨⟨i, hi, β, hrest⟩, hset⟩ := howed
  have hopen := opening_of_mem_openings hps hk hitem
  refine owed_of_demand hps (mem_closure_opening hi hrest hopen) ?_ h
  rw [lookaheads_of_mem_openings hitem]
  exact fun t ht => hset t ht _ hopen

/-- What an item of a state asks for is owed if the closure is. -/
lemma owed_of_item (howed : ∀ x ∈ c, ps.Owed (ps.itemSet kernel) x.1 x.2)
    (hitem : item ∈ kernel ++ c.flatMap fun x => ps.basis.openings x.1 x.2)
    {demand : SymbolId × TerminalSet} (h : ps.basis.demand? item = some demand) :
    ps.Owed (ps.itemSet kernel) demand.1 demand.2 := by
  rcases List.mem_append.mp hitem with hitem | hitem
  · exact owed_of_kernel hps hitem h
  · obtain ⟨x, hx, hitem⟩ := List.mem_flatMap.mp hitem
    exact owed_of_openings hps hk (howed x hx) hitem h

/-! ## Complete closures -/

namespace Completes

lemma exists_item (h : ps.Completes kernel c) (hi : i ∈ ps.closure (ps.itemSet kernel).core) :
    ∃ item ∈ kernel ++ c.flatMap fun x => ps.basis.openings x.1 x.2,
      ps.basis.dotted item.key = i :=
  @State.Justified.exists_item_of_met ps target ⟨kernel, c, []⟩ hps hk h.met i hi

/-- What may follow an item by the theory is among the lookaheads that it has. -/
lemma mem_lookaheads (hkernel : ps.IsKernel kernel) (h : ps.Completes kernel c)
    (ht : ps.Lookahead (ps.itemSet kernel) i t)
    (hitem : item ∈ kernel ++ c.flatMap fun x => ps.basis.openings x.1 x.2)
    (hdotted : ps.basis.dotted item.key = i) : t ∈ item.lookaheads := by
  -- an item with openings of a symbol comes from the one entry of that symbol
  have hentry : ∀ {s : SymbolId} {set : TerminalSet} {i : Dotted} {β : List Part} {item : Item},
      ps.rest i = .nonterminal s :: β → (s, set) ∈ c →
      item ∈ kernel ++ c.flatMap (fun x => ps.basis.openings x.1 x.2) →
      ps.Opening s (ps.basis.dotted item.key) → item.lookaheads = set := by
    intro s set i β item hrest hset hitem hopen
    rcases List.mem_append.mp hitem with hitem | hitem
    · exact absurd hopen (hkernel.not_opening hps hitem hrest)
    · obtain ⟨⟨s', set'⟩, hx, hitem⟩ := List.mem_flatMap.mp hitem
      obtain ⟨-, prod, hprod, hlhs⟩ := opening_of_mem_openings hps hk hitem
      obtain ⟨-, prod', hprod', rfl⟩ := hopen
      obtain rfl : prod = prod' := Option.some.inj (hprod.symm.trans hprod')
      subst hlhs
      rw [lookaheads_of_mem_openings hitem]
      exact Option.some.inj ((State.lookup_of_mem h.nodup hx).symm.trans
        (State.lookup_of_mem h.nodup hset))
  induction ht generalizing item with
  | @kernel i t hi ht =>
    obtain ⟨item', hitem', hdotted', ht⟩ := ht
    have hkey := ps.dotted_injective (hdotted.trans hdotted'.symm)
    rcases List.mem_append.mp hitem with hitem | hitem
    · rwa [List.inj_on_of_nodup_map (hkernel.sorted.imp Nat.ne_of_lt) hitem hitem' hkey]
    · obtain ⟨x, hx, hitem⟩ := List.mem_flatMap.mp hitem
      obtain ⟨⟨i', -, β, hrest⟩, -⟩ := h.owed x hx
      have hopen := opening_of_mem_openings hps hk hitem
      rw [hkey] at hopen
      exact absurd hopen (hkernel.not_opening hps hitem' hrest)
  | ahead hi hrest hj ht =>
    obtain ⟨item', hitem', rfl⟩ := h.exists_item hps hk hi
    obtain ⟨set, hset, hsub⟩ := h.met item' hitem' _ (demand?_eq_some_iff.mpr ⟨_, hrest, rfl⟩)
      ((range_ne_nil_iff hps).mpr ⟨_, hj⟩)
    rw [hentry hrest hset hitem (hdotted ▸ hj)]
    exact hsub _ ((mem_ahead hps hrest).mpr (.inl ht))
  | inherited hi hrest hj hβ ih =>
    obtain ⟨item', hitem', rfl⟩ := h.exists_item hps hk hi.mem_closure
    obtain ⟨set, hset, hsub⟩ := h.met item' hitem' _ (demand?_eq_some_iff.mpr ⟨_, hrest, rfl⟩)
      ((range_ne_nil_iff hps).mpr ⟨_, hj⟩)
    rw [hentry hrest hset hitem (hdotted ▸ hj)]
    exact hsub _ ((mem_ahead hps hrest).mpr (.inr ⟨hβ, ih hitem' rfl⟩))

lemma mem_set_iff (hkernel : ps.IsKernel kernel) (h : ps.Completes kernel c)
    (hset : (s, set) ∈ c) (hj : ps.Opening s j) :
    t ∈ set ↔ ps.Lookahead (ps.itemSet kernel) j t := by
  constructor
  · exact fun ht => (h.owed _ hset).2 t ht j hj
  · intro ht
    obtain ⟨item, hitem, hdotted, rfl⟩ := exists_opening hps hk set hj
    exact h.mem_lookaheads hps hk hkernel ht
      (List.mem_append_right _ (List.mem_flatMap.mpr ⟨_, hset, hitem⟩)) hdotted

/-- There is one complete closure for a kernel. -/
lemma eq {d d' : List (SymbolId × TerminalSet)} (hkernel : ps.IsKernel kernel)
    (h : ps.Completes kernel d) (h' : ps.Completes kernel d') : d = d' := by
  have hsymbols : d.map Prod.fst = d'.map Prod.fst :=
    h.found.eq_of_none h'.found h.nextSymbol_eq_none h'.nextSymbol_eq_none
  refine List.ext_getElem (by simpa using congrArg List.length hsymbols) fun n hn hn' => ?_
  have hsymbol : d[n].1 = d'[n].1 := by
    have := congrArg (fun l => l[n]?) hsymbols
    simpa [hn, hn'] using this
  obtain ⟨j, hj⟩ := (range_ne_nil_iff hps).mp
    (h.range_ne_nil (List.mem_map_of_mem (List.getElem_mem hn)))
  refine Prod.ext hsymbol (TerminalSet.ext_mem fun t => ?_)
  have hset : t ∈ d[n].2 ↔ ps.Lookahead (ps.itemSet kernel) j t :=
    h.mem_set_iff hps hk hkernel (s := d[n].1) (List.getElem_mem hn) hj
  have hset' : t ∈ d'[n].2 ↔ ps.Lookahead (ps.itemSet kernel) j t :=
    h'.mem_set_iff hps hk hkernel (s := d'[n].1) (List.getElem_mem hn') (hsymbol ▸ hj)
  exact hset.trans hset'.symm

/-- The complete closure of a kernel is the least one. -/
lemma isLeast (hkernel : ps.IsKernel kernel) (h : ps.Completes kernel c) :
    ps.IsLeast kernel c where
  nodup := h.nodup
  mem_iff s := by
    constructor
    · intro hs
      obtain ⟨x, hx, rfl⟩ := List.mem_map.mp hs
      exact ⟨(range_ne_nil_iff hps).mp (h.range_ne_nil hs), (h.owed x hx).1⟩
    · rintro ⟨hopen, i, hi, β, hrest⟩
      obtain ⟨item, hitem, rfl⟩ := h.exists_item hps hk hi
      obtain ⟨set, hset, -⟩ := h.met item hitem _ (demand?_eq_some_iff.mpr ⟨_, hrest, rfl⟩)
        ((range_ne_nil_iff hps).mpr hopen)
      exact List.mem_map_of_mem hset
  openings x hx := by
    refine ⟨ps.range x.1, List.pairwise_lt_range', fun p => ?_, rfl⟩
    rw [hps.mem_range]
    exact ⟨fun hp => ⟨rfl, hp⟩, fun hp => hp.2⟩
  lookaheads x hx j hj t := h.mem_set_iff hps hk hkernel hx hj

end Completes

end Items

end Productions

namespace State

variable {ps : Productions} {target : SymbolId} {st : State} {b : Basis}

/-- The closure of the state is empty, or it is what an earlier completion has found for the same
items with no more lookaheads. -/
inductive Staged (b : Basis) : State → Prop
  | fresh {st : State} : st.closure = [] → Staged b st
  | resumed {st st' : State} : Staged b st → List.Forall₂ Item.Below st.kernel st'.kernel →
      st'.closure = (st.close b).closure → Staged b st'

/-- The symbols of the closure come in order, and nothing is in it that is not owed. -/
structure Sound (ps : Productions) (st : State) : Prop where
  found : Found (ps.basis.nextSymbol st.core) ((ps.basis.solid st.closure).map Prod.fst)
  tidy : st.Tidy ps.width
  owed : ∀ x ∈ st.closure, ps.Owed (ps.itemSet st.kernel) x.1 x.2

lemma Sound.close (hps : ps.Proper target) (hk : ps.KeysFit) (h : st.Sound ps) :
    (st.close ps.basis).Sound ps where
  found := by
    rw [core, kernel_close]
    exact found_close st h.found
  tidy := h.tidy.close hps
  owed := by
    rw [kernel_close]
    exact close_induction (P := ps.Owed (ps.itemSet st.kernel))
      (fun _ _ _ => Productions.owed_union)
      (fun _ _ howed _ hitem _ => Productions.owed_of_openings hps hk howed hitem)
      (fun _ hitem _ => Productions.owed_of_kernel hps hitem) h.owed

lemma Staged.sound (hps : ps.Proper target) (hk : ps.KeysFit) (h : st.Staged ps.basis)
    (hkernel : ps.IsKernel st.kernel) : st.Sound ps := by
  induction h with
  | fresh hnil =>
    refine ⟨?_, ⟨hkernel.lt_width, ?_, ?_⟩, ?_⟩ <;> rw [hnil]
    · exact .nil
    · exact List.nodup_nil
    · simp
    · simp
  | @resumed st st' _ hbelow hclosure ih =>
    have h := (ih (hkernel.of_below hbelow)).close hps hk
    have hcore : (st.close ps.basis).core = st'.core := by
      rw [core, kernel_close]
      exact Item.map_key_of_below hbelow
    refine ⟨?_, ⟨hkernel.lt_width, ?_, ?_⟩, ?_⟩ <;> rw [hclosure]
    · exact hcore ▸ h.found
    · exact h.tidy.2.1
    · exact h.tidy.2.2
    · refine fun x hx => (h.owed x hx).of_below ?_
      rwa [kernel_close]

/-- What is completed from a sound closure is the complete closure of the kernel. -/
lemma Sound.completes (hps : ps.Proper target) (hk : ps.KeysFit) (h : st.Sound ps) :
    ps.Completes st.kernel (ps.basis.solid (st.close ps.basis).closure) where
  found := by
    have hfound := (h.close hps hk).found
    rwa [core, kernel_close] at hfound
  met item hitem demand hdemand hrange := by
    rw [Basis.flatMap_solid] at hitem
    have hclosed := closed_close hps h.tidy
    rw [Closed, items, kernel_close] at hclosed
    obtain ⟨set, hset, hsub⟩ := hclosed item hitem demand hdemand
    exact ⟨set, List.mem_filter.mpr ⟨hset, decide_eq_true hrange⟩, hsub⟩
  owed x hx := by
    have howed := (h.close hps hk).owed x (List.mem_of_mem_filter hx)
    rwa [kernel_close] at howed

lemma items_close (b : Basis) (st : State) : (st.close b).items b =
    st.kernel ++ (b.solid (st.close b).closure).flatMap fun x => b.openings x.1 x.2 := by
  rw [items, kernel_close, Basis.flatMap_solid]

end State

end ShiftReduce
