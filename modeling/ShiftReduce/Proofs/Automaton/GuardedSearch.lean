import ShiftReduce.Proofs.Automaton.GuardedClosure
import ShiftReduce.Proofs.Automaton.Lalr
/-!
# The search for states by index, with guarded accesses

States are kept in the order in which they are found, under the keys of their kernels, and a state
is the list of its items with its transitions by index. A visit works the closure out in place,
groups the items by the symbol after the dot, and stores one kernel after another; a kernel is
merged into the first items of a state that is there. States are found by number, and productions
and symbols as before; there is no result if one of these accesses is out of range.

For productions whose keys fit there is a result. At every moment of the search the states by index
are those by symbol: they have the same cores and the same items in the same places, and an index
leads where its symbol does. The search by symbol keeps the closures of its states such that a
closure in place can go on from them.

The number of a state is not cut to a word, as it is not in `Discovery`: states are as many as the
list has, and to have more of them than there are words their items alone would not fit in a memory.

Main statement: `Guarded.automaton_eq`.
-/

namespace ShiftReduce

/-! ## Closures along the search -/

namespace Item

variable {items items' items'' : List Item}

lemma Below.trans {item item' item'' : Item} (h : item.Below item') (h' : item'.Below item'') :
    item.Below item'' :=
  ⟨h.1.trans h'.1, fun t ht => h'.2 t (h.2 t ht)⟩

lemma forall₂_below_refl (items : List Item) : List.Forall₂ Below items items :=
  List.forall₂_same.mpr fun _ _ => ⟨rfl, fun _ ht => ht⟩

lemma forall₂_below_trans (h : List.Forall₂ Below items items')
    (h' : List.Forall₂ Below items' items'') : List.Forall₂ Below items items'' := by
  induction h generalizing items'' with
  | nil => exact h'
  | cons hx _ ih =>
    cases h' with
    | cons hx' h' => exact .cons (hx.trans hx') (ih h')

end Item

namespace State

variable {b : Basis} {ps : Productions} {target : SymbolId} {st st' : State} {k : List Item}

/-- More lookaheads in the kernel do not keep a closure from being completed further. -/
lemma Staged.of_below (h : st.Staged b) (hbelow : List.Forall₂ Item.Below st.kernel st'.kernel)
    (hclosure : st'.closure = st.closure) : st'.Staged b := by
  cases h with
  | fresh hnil => exact .fresh (hclosure.trans hnil)
  | resumed h₀ hbelow₀ hclosure₀ =>
    exact .resumed h₀ (Item.forall₂_below_trans hbelow₀ hbelow) (hclosure.trans hclosure₀)

lemma Staged.close (h : st.Staged b) : (st.close b).Staged b :=
  .resumed h (kernel_close b st ▸ Item.forall₂_below_refl st.kernel) rfl

lemma below_merge (h : st.core = k.map Item.key) :
    List.Forall₂ Item.Below st.kernel (st.merge k).kernel := by
  obtain ⟨kernel, closure, transitions⟩ := st
  show List.Forall₂ Item.Below kernel
    (kernel.zipWith (fun a b => ⟨a.key, a.lookaheads.union b.lookaheads⟩) k)
  replace h : kernel.map Item.key = k.map Item.key := h
  clear closure transitions
  induction kernel generalizing k with
  | nil => exact .nil
  | cons item kernel ih =>
    cases k with
    | nil => cases h
    | cons item' k =>
      refine .cons ⟨rfl, fun t ht => TerminalSet.mem_union.mpr (.inl ht)⟩ ?_
      exact ih (List.cons.inj h).2

/-- The kernel of a justified state is one with which a state may be entered. -/
lemma Justified.isKernel (hps : ps.Proper target) (h : st.Justified ps) :
    ps.IsKernel st.kernel where
  sorted := h.sorted
  start_or_moved _ hitem := h.reachable.start_or_moved (dotted_mem_kernelSet ps hitem)
  lt_width item hitem t ht := (h.kernel item hitem t ht).lt_width hps

end State

namespace Discovery

variable {b : Basis} {d : Discovery} {i : StateId} {move : Part × List Item} {k : List Item}

/-- A completed closure can be come to from all states. -/
def AllStaged (b : Basis) (d : Discovery) : Prop := ∀ st ∈ d.states, st.Staged b

lemma AllStaged.set (h : d.AllStaged b) {st : State} (hst : st.Staged b) (queue : List StateId) :
    AllStaged b ⟨d.states.set i st, queue⟩ := by
  intro st' hst'
  rcases List.mem_or_eq_of_mem_set hst' with hst' | rfl
  · exact h st' hst'
  · exact hst

lemma AllStaged.enter (h : d.AllStaged b) (k : List Item) : AllStaged b (d.enter k).2 := by
  rw [Discovery.enter]
  split
  · refine List.forall_mem_append.mpr ⟨h, fun st hst => ?_⟩
    rw [List.mem_singleton.mp hst]
    exact .fresh rfl
  · next i hfind =>
    obtain ⟨hi, hcore, -⟩ := List.findIdx?_eq_some_iff_getElem.mp hfind
    have hcore : d.states[i].core = k.map Item.key := by simpa using hcore
    have hst : d.states[i]? = some d.states[i] := List.getElem?_eq_getElem hi
    simp only [List.getD_eq_getElem?_getD, hst, Option.getD_some]
    split
    · exact h
    · exact h.set ((h _ (List.getElem_mem hi)).of_below (State.below_merge hcore) rfl) _

lemma AllStaged.follow (h : d.AllStaged b) (i : StateId) (move : Part × List Item) :
    AllStaged b (d.follow i move) := by
  have hentered := h.enter move.2
  cases hst : (d.enter move.2).2.states[i]? with
  | none =>
    have hsame : (d.follow i move).states = (d.enter move.2).2.states :=
      List.modify_eq_self (List.getElem?_eq_none_iff.mp hst)
    rwa [AllStaged, hsame]
  | some st =>
    have hstaged := hentered st (List.mem_of_getElem? hst)
    have hrecorded : (st.setTarget move.1 (d.enter move.2).1).Staged b :=
      hstaged.of_below (Item.forall₂_below_refl st.kernel) rfl
    rw [follow_eq hst]
    exact hentered.set hrecorded _

/-- A visit completes the closure of a state, and leaves all to be completed further. -/
lemma AllStaged.visit (h : d.AllStaged b) (i : StateId) : AllStaged b (d.visit b i) := by
  rw [Discovery.visit]
  split
  · exact h
  · next st hst =>
    exact List.foldlRecOn _ _ (h.set (h st (List.mem_of_getElem? hst)).close d.queue)
      fun d' h' move _ => h'.follow i move

/-- The queue holds numbers of states. -/
def Queued (d : Discovery) : Prop := ∀ j ∈ d.queue, j < d.states.length

lemma length_le_enter (d : Discovery) (k : List Item) :
    d.states.length ≤ (d.enter k).2.states.length := by
  rw [Discovery.enter]
  split
  · simp
  · dsimp only
    split <;> simp

lemma Queued.enter (h : d.Queued) (k : List Item) : (d.enter k).2.Queued := by
  rw [Discovery.enter]
  split
  · refine List.forall_mem_append.mpr ⟨fun j hj => ?_, by simp⟩
    exact Nat.lt_of_lt_of_le (h j hj) (by simp)
  · next i hfind =>
    have hi := (List.findIdx?_eq_some_iff_getElem.mp hfind).1
    dsimp only
    split
    · exact h
    · refine List.forall_mem_append.mpr ⟨fun j hj => ?_, by simpa using hi⟩
      simpa using h j hj

lemma Queued.follow (h : d.Queued) (i : StateId) (move : Part × List Item) :
    (d.follow i move).Queued := by
  intro j hj
  have hj := h.enter move.2 j hj
  simpa [Discovery.follow] using hj

lemma Queued.visit (h : d.Queued) (b : Basis) (i : StateId) : (d.visit b i).Queued := by
  rw [Discovery.visit]
  split
  · exact h
  · next st _ =>
    have hstart : Queued { d with states := d.states.set i (st.close b) } :=
      fun j hj => by simpa using h j hj
    exact List.foldlRecOn _ _ hstart fun d' h' move _ => h'.follow i move

end Discovery

/-! ## Groups by key -/

/-- A group is what stands at its part. -/
lemma State.addToGroup_eq_alter (groups : List (Part × List Item)) (part : Part) (item : Item) :
    addToGroup groups part item = OrderedMap.alter groups part [] (· ++ [item]) := by
  induction groups with
  | nil => rfl
  | cons x groups ih => rw [addToGroup, OrderedMap.alter, ih]

/-- The keys of a map may be renamed if none of them is taken for another. -/
lemma OrderedMap.map_alter {κ ι α : Type} [DecidableEq κ] [DecidableEq ι] {m : OrderedMap κ α}
    {key : κ} {name : κ → ι} (h : ∀ x ∈ m, name x.1 = name key → x.1 = key) (fresh : α)
    (f : α → α) : (m.alter key fresh f).map (fun x => (name x.1, x.2)) =
      OrderedMap.alter (m.map fun x => (name x.1, x.2)) (name key) fresh f := by
  induction m with
  | nil => rfl
  | cons x m ih =>
    obtain ⟨hx, hm⟩ := List.forall_mem_cons.mp h
    rw [alter, List.map_cons, alter]
    by_cases hkey : x.1 = key
    · rw [if_pos hkey, if_pos (congrArg name hkey), List.map_cons]
    · rw [if_neg hkey, if_neg fun hname => hkey (hx hname), List.map_cons, ih hm]

namespace Guarded

/-! ## The search -/

/-- A state as it is kept: its items, and where its symbols lead. -/
structure Stored where
  items : List Item
  transitions : OrderedMap LoweredSymbol StateId

/-- The states in the order in which they are found, under the keys of their kernels. -/
abbrev StateStore := OrderedMap (List Nat) Stored

/-- Adds the lookaheads of a kernel to the items that a state begins with, item by item. -/
def mergeItems : List Item → List Item → List Item
  | item :: items, new :: kernel =>
    ⟨item.key, item.lookaheads.union new.lookaheads⟩ :: mergeItems items kernel
  | items, [] => items
  | [], _ => []

/-- Stores a kernel. The result is the number of its state, whether the state has changed, and the
states. -/
def store (states : StateStore) (kernel : List Item) : Option (StateId × Bool × StateStore) :=
  match states.place? (kernel.map Item.key) with
  | some i => do
    let (core, st) ← states[i]?
    let items := mergeItems st.items kernel
    return (i, decide (items ≠ st.items), states.set i (core, { st with items := items }))
  | none =>
    some (states.length, true, states ++ [(kernel.map Item.key, ⟨kernel, []⟩)])

/-- States found so far and the queue of those to visit. -/
structure Search where
  states : StateStore
  queue : List StateId

/-- Adds an item, advanced, to the group of the symbol after its dot. -/
def group (b : LoweredBasis) (groups : OrderedMap LoweredSymbol (List Item)) (item : Item) :
    Option (OrderedMap LoweredSymbol (List Item)) := do
  let prod ← b.production? item.key
  if b.dotOf item.key = prod.symbols.length then return groups
  else
    let symbol ← prod.symbols[b.dotOf item.key]?
    let key := b.key (b.productionOf item.key) (b.dotOf item.key + 1)
    return groups.alter symbol [] (· ++ [⟨key, item.lookaheads⟩])

/-- Follows one transition of a state. -/
def follow (i : StateId) (d : Search) (move : LoweredSymbol × List Item) : Option Search := do
  let (dest, changed, states) ← store d.states (Item.sort move.2)
  let (core, st) ← states[i]?
  let transitions := st.transitions.alter move.1 dest fun _ => dest
  return {
    states := states.set i (core, { st with transitions := transitions })
    queue := if changed then d.queue ++ [dest] else d.queue }

/-- Visits a state: works its closure out and follows its transitions. -/
def visit (b : LoweredBasis) (limit : Nat) (d : Search) (i : StateId) : Option Search := do
  let (core, st) ← d.states[i]?
  let items ← closeInPlace b limit st.items
  let moves ← items.foldlM (group b) []
  moves.foldlM (follow i) { d with states := d.states.set i (core, { st with items := items }) }

/-- Visits the states of the queue until it is empty. -/
def run (b : LoweredBasis) (limit : Nat) : Nat → Search → Option StateStore
  | 0, _ => none
  | fuel + 1, d =>
    match d.queue with
    | [] => some d.states
    | i :: queue => do run b limit fuel (← visit b limit { d with queue } i)

/-- The states over a lowered grammar. -/
def automaton (b : LoweredBasis) (fuel : Nat) : Option StateStore := do
  let eoi ← insert b.lowered.width .empty SymbolId.eoi
  let (start, _, states) ← store [] [⟨b.key b.lowered.start 0, eoi⟩]
  run b fuel fuel ⟨states, [start]⟩

/-! ## States by index and by symbol -/

/-- The state that is kept, with the key under which it is found, is this state. -/
structure Same (b : LoweredBasis) (ps : Productions) (x : List Nat × Stored) (st : State) :
    Prop where
  core : x.1 = st.core
  items : x.2.items = st.items ps.basis
  lookup : ∀ symbol, b.lowered.InRange symbol →
    x.2.transitions.lookup symbol = st.target? (b.lowered.part symbol)

/-- The search has found the same states, and it is to visit the same of them. -/
structure Like (b : LoweredBasis) (ps : Productions) (d : Search) (d' : Discovery) : Prop where
  states : List.Forall₂ (Same b ps) d.states d'.states
  queue : d.queue = d'.queue

section Forall₂

variable {α β : Type} {r : α → β → Prop} {l : List α} {l' : List β} {i : Nat} {x' : β}

lemma exists_getElem?_of_forall₂ (h : List.Forall₂ r l l') (hx' : l'[i]? = some x') :
    ∃ x, l[i]? = some x ∧ r x x' := by
  induction h generalizing i with
  | nil => simp at hx'
  | cons hx _ ih =>
    cases i with
    | zero =>
      obtain rfl := Option.some.inj hx'
      exact ⟨_, rfl, hx⟩
    | succ i => exact ih hx'

lemma forall₂_set (h : List.Forall₂ r l l') {x : α} (hx : r x x') (i : Nat) :
    List.Forall₂ r (l.set i x) (l'.set i x') := by
  induction h generalizing i with
  | nil => exact .nil
  | cons hy h ih =>
    cases i with
    | zero => exact .cons hx h
    | succ i => exact .cons hy (ih i)

lemma findIdx?_of_forall₂ (h : List.Forall₂ r l l') {p : α → Bool} {p' : β → Bool}
    (hp : ∀ x x', r x x' → p x = p' x') : l.findIdx? p = l'.findIdx? p' := by
  induction h with
  | nil => rfl
  | cons hx _ ih => rw [List.findIdx?_cons, List.findIdx?_cons, hp _ _ hx, ih]

end Forall₂

variable {b : LoweredBasis} {ps : Productions} {target : SymbolId} {d : Search} {d' : Discovery}
  {i : StateId} {x : List Nat × Stored} {st : State} {kernel items : List Item}

/-! ## Storing a kernel -/

/-- To merge a kernel into a state is to merge it into the first of its items. -/
lemma mergeItems_eq (hcore : st.core = kernel.map Item.key) :
    mergeItems (st.items ps.basis) kernel = (st.merge kernel).items ps.basis := by
  obtain ⟨old, closure, transitions⟩ := st
  rw [State.items, State.items, State.merge]
  replace hcore : old.map Item.key = kernel.map Item.key := hcore
  dsimp only
  generalize (closure.flatMap fun c => ps.basis.openings c.1 c.2) = rest
  clear closure transitions
  induction old generalizing kernel with
  | nil =>
    rw [List.map_eq_nil_iff.mp hcore.symm]
    cases rest <;> rfl
  | cons item old ih =>
    cases kernel with
    | nil => cases hcore
    | cons new kernel => exact congrArg (_ :: ·) (ih (List.cons.inj hcore).2)

/-- A state has changed if and only if its items have. -/
lemma items_merge_iff (hcore : st.core = kernel.map Item.key) :
    (st.merge kernel).items ps.basis = st.items ps.basis ↔ st.merge kernel = st := by
  refine ⟨fun h => ?_, fun h => by rw [h]⟩
  have hlength : (st.merge kernel).kernel.length = st.kernel.length := by
    have h := congrArg List.length (State.core_merge hcore)
    rwa [State.core, State.core, List.length_map, List.length_map] at h
  have hkernel : (st.merge kernel).kernel = st.kernel := (List.append_inj h hlength).1
  obtain ⟨old, closure, transitions⟩ := st
  exact congrArg (fun k => State.mk k closure transitions) hkernel

/-- A kernel is stored as it is entered. -/
lemma store_eq (h : Like b ps d d') (kernel : List Item) : ∃ changed states,
    store d.states kernel = some ((d'.enter kernel).1, changed, states) ∧
      Like b ps ⟨states, if changed then d.queue ++ [(d'.enter kernel).1] else d.queue⟩
        (d'.enter kernel).2 := by
  have hplace : d.states.place? (kernel.map Item.key) =
      d'.states.findIdx? fun st => st.core == kernel.map Item.key :=
    findIdx?_of_forall₂ h.states fun x st hsame => by
      rw [hsame.core, Bool.eq_iff_iff]
      exact decide_eq_true_iff.trans beq_iff_eq.symm
  rw [store, Discovery.enter, hplace]
  cases hfind : d'.states.findIdx? fun st => st.core == kernel.map Item.key with
  | none =>
    refine ⟨true, d.states ++ [(kernel.map Item.key, ⟨kernel, []⟩)], ?_, ?_, ?_⟩
    · simp only [h.states.length_eq]
    · refine List.rel_append h.states (.cons ⟨rfl, ?_, fun _ _ => rfl⟩ .nil)
      exact (List.append_nil kernel).symm
    · rw [if_pos rfl, h.queue]
  | some i =>
    obtain ⟨hi, hcore, -⟩ := List.findIdx?_eq_some_iff_getElem.mp hfind
    have hst : d'.states[i]? = some d'.states[i] := List.getElem?_eq_getElem hi
    generalize d'.states[i] = st at hcore hst
    replace hcore : st.core = kernel.map Item.key := by simpa using hcore
    obtain ⟨⟨core, kept⟩, hx, hsame⟩ := exists_getElem?_of_forall₂ h.states hst
    have hitems : mergeItems kept.items kernel = (st.merge kernel).items ps.basis := by
      rw [hsame.items, mergeItems_eq hcore]
    have hmerged : Same b ps (core, { kept with items := mergeItems kept.items kernel })
        (st.merge kernel) :=
      ⟨hsame.core.trans (State.core_merge hcore).symm, hitems, hsame.lookup⟩
    simp only [hx, hst, List.getD_eq_getElem?_getD, Option.getD_some, Option.bind_eq_bind,
      Option.bind_some]
    refine ⟨_, _, rfl, ?_⟩
    by_cases hchanged : st.merge kernel = st
    · have hkept : mergeItems kept.items kernel = kept.items := by
        rw [hitems, hsame.items, hchanged]
      have hset : d.states.set i (core, kept) = d.states := by
        obtain ⟨hlt, hx⟩ := List.getElem?_eq_some_iff.mp hx
        rw [← hx, List.set_getElem_self]
      rw [if_pos hchanged, hkept, hset]
      exact ⟨h.states, by simpa using h.queue⟩
    · have hkept : mergeItems kept.items kernel ≠ kept.items := by
        rw [hitems, hsame.items]
        exact fun heq => hchanged ((items_merge_iff hcore).mp heq)
      rw [if_neg hchanged]
      exact ⟨forall₂_set h.states hmerged i, by simpa [hkept] using h.queue⟩

/-! ## Visits -/

section Visit

variable (hb : b.Mirrors ps)

include hb

lemma part_inj {symbol symbol' : LoweredSymbol} (hsymbol : b.lowered.InRange symbol)
    (hsymbol' : b.lowered.InRange symbol')
    (heq : b.lowered.part symbol = b.lowered.part symbol') : symbol = symbol' := by
  cases symbol with
  | token s =>
    cases symbol' with
    | token s' => exact congrArg LoweredSymbol.token (Part.terminal.inj heq)
    | nonterminal n' => cases heq
  | nonterminal n =>
    cases symbol' with
    | token s' => cases heq
    | nonterminal n' =>
      have heq : b.lowered.ntSymbol n = b.lowered.ntSymbol n' := Part.nonterminal.inj heq
      rw [hb.lowered.ntSymbol_inj hsymbol.2 hsymbol'.2 heq]

/-- A transition is followed by index as it is by symbol. -/
lemma follow_eq (h : Like b ps d d') (hi : i < d'.states.length)
    {move : LoweredSymbol × List Item} (hmove : b.lowered.InRange move.1) :
    ∃ v, follow i d move = some v ∧
      Like b ps v (d'.follow i (b.lowered.part move.1, Item.sort move.2)) := by
  obtain ⟨changed, states, hstore, hentered⟩ := store_eq h (Item.sort move.2)
  have hst : (d'.enter (Item.sort move.2)).2.states[i]? = some _ :=
    List.getElem?_eq_getElem (hi.trans_le (Discovery.length_le_enter d' (Item.sort move.2)))
  obtain ⟨⟨core, kept⟩, hx, hsame⟩ := exists_getElem?_of_forall₂ hentered.states hst
  have hfollow : d'.follow i (b.lowered.part move.1, Item.sort move.2) = _ :=
    Discovery.follow_eq hst
  rw [hfollow, follow, hstore]
  simp only [hx, Option.bind_eq_bind, Option.bind_some]
  refine ⟨_, rfl, forall₂_set hentered.states ?_ i, hentered.queue⟩
  refine ⟨hsame.core, hsame.items, fun q hq => ?_⟩
  have hpart : b.lowered.part q = b.lowered.part move.1 ↔ q = move.1 :=
    ⟨part_inj hb hq hmove, congrArg b.lowered.part⟩
  simp only [OrderedMap.lookup_alter, State.target?_setTarget, hpart, hsame.lookup q hq]

/-- Following some transitions keeps the two searches alike. -/
lemma foldlM_follow (h : Like b ps d d') (hi : i < d'.states.length)
    {moves : List (LoweredSymbol × List Item)} (hmoves : ∀ x ∈ moves, b.lowered.InRange x.1) :
    ∃ v, moves.foldlM (follow i) d = some v ∧ Like b ps v (moves.foldl
      (fun d' move => d'.follow i (b.lowered.part move.1, Item.sort move.2)) d') := by
  have hstep : ∀ move ∈ moves, ∀ v v', Like b ps v v' ∧ i < v'.states.length →
      ∃ w, follow i v move = some w ∧
        Like b ps w (v'.follow i (b.lowered.part move.1, Item.sort move.2)) ∧
        i < (v'.follow i (b.lowered.part move.1, Item.sort move.2)).states.length := by
    rintro move hmove v v' ⟨hlike, hlt⟩
    obtain ⟨w, hw, hlike'⟩ := follow_eq hb hlike hlt (hmoves move hmove)
    refine ⟨w, hw, hlike', hlt.trans_le ?_⟩
    simpa [Discovery.follow] using Discovery.length_le_enter v' (Item.sort move.2)
  obtain ⟨v, hv, hlike, -⟩ := foldlM_rel hstep ⟨h, hi⟩
  exact ⟨v, hv, hlike⟩

variable (hps : ps.Proper target)

include hps

/-- An item is grouped by index as it is by symbol. -/
lemma group_eq {groups : OrderedMap LoweredSymbol (List Item)} {item : Item}
    (hgroups : ∀ x ∈ groups, b.lowered.InRange x.1)
    (hitem : ps.IsDotted (ps.basis.dotted item.key)) :
    ∃ groups', group b groups item = some groups' ∧
      (∀ x ∈ groups', b.lowered.InRange x.1) ∧
      groups'.map (fun x => (b.lowered.part x.1, x.2)) =
        State.group ps.basis (groups.map fun x => (b.lowered.part x.1, x.2)) item := by
  obtain ⟨prod, hmem, hprod, hproduction, hdot⟩ := exists_production hb hitem
  have hremaining : ps.basis.remaining item.key =
      (prod.symbols.drop (b.dotOf item.key)).map b.lowered.part := by
    rw [Basis.remaining, hproduction, Lowered.production, List.map_drop, dotOf_eq hb]
  rw [State.group, hremaining, group, hprod, Option.bind_eq_bind, Option.bind_some]
  by_cases hend : b.dotOf item.key = prod.symbols.length
  · rw [if_pos hend, hend, List.drop_length]
    exact ⟨groups, rfl, hgroups, rfl⟩
  · have hlt : b.dotOf item.key < prod.symbols.length := Nat.lt_of_le_of_ne hdot hend
    have hsymbol := hb.lowered.inRange hps hmem _ (List.getElem_mem hlt)
    have hadvance : Item.mk (b.key (b.productionOf item.key) (b.dotOf item.key + 1))
        item.lookaheads = ps.basis.advance item := by
      rw [Basis.advance, key_eq hb, productionOf_eq hb, dotOf_eq hb]
    rw [if_neg hend, List.drop_eq_getElem_cons hlt, List.map_cons, List.getElem?_eq_getElem hlt,
      Option.bind_eq_bind, Option.bind_some]
    dsimp only
    rw [hadvance]
    generalize prod.symbols[b.dotOf item.key] = symbol at hsymbol
    refine ⟨_, rfl, fun x hx => ?_, ?_⟩
    · have hkey := List.mem_map_of_mem (f := Prod.fst) hx
      rw [OrderedMap.map_fst_alter] at hkey
      have hkey : x.1 ∈ groups.map Prod.fst ∨ x.1 = symbol := by
        split at hkey
        · exact .inl hkey
        · simpa using hkey
      rcases hkey with hkey | hkey
      · obtain ⟨y, hy, hyx⟩ := List.mem_map.mp hkey
        exact hyx ▸ hgroups y hy
      · exact hkey ▸ hsymbol
    · have hname : ∀ x ∈ groups, b.lowered.part x.1 = b.lowered.part symbol → x.1 = symbol :=
        fun x hx => part_inj hb (hgroups x hx) hsymbol
      rw [OrderedMap.map_alter hname, State.addToGroup_eq_alter]

/-- The groups of the items are those by symbol. -/
lemma foldlM_group (hitems : AreDotted ps items) :
    ∃ moves, items.foldlM (group b) [] = some moves ∧
      (∀ x ∈ moves, b.lowered.InRange x.1) ∧
      moves.map (fun x => (b.lowered.part x.1, x.2)) =
        items.foldl (State.group ps.basis) [] := by
  have hstep : ∀ item ∈ items, ∀ groups groups',
      (∀ x ∈ groups, b.lowered.InRange x.1) ∧
        groups.map (fun x => (b.lowered.part x.1, x.2)) = groups' →
      ∃ next, group b groups item = some next ∧ (∀ x ∈ next, b.lowered.InRange x.1) ∧
        next.map (fun x => (b.lowered.part x.1, x.2)) = State.group ps.basis groups' item := by
    rintro item hitem groups _ ⟨hgroups, rfl⟩
    exact group_eq hb hps hgroups (hitems item hitem)
  exact foldlM_rel hstep ⟨fun _ hx => absurd hx List.not_mem_nil, rfl⟩

/-- A state is visited by index as it is by symbol. -/
lemma visit_eq (hk : ps.KeysFit) (h : Like b ps d d') (hi : i < d'.states.length)
    (hjust : ∀ st ∈ d'.states, st.Justified ps) (hstaged : d'.AllStaged ps.basis) :
    ∃ v n, (∀ limit, n ≤ limit → visit b limit d i = some v) ∧
      Like b ps v (d'.visit ps.basis i) := by
  have hst : d'.states[i]? = some d'.states[i] := List.getElem?_eq_getElem hi
  have hmem := List.getElem_mem hi
  rw [Discovery.visit, hst]
  generalize d'.states[i] = st at hst hmem
  obtain ⟨⟨core, kept⟩, hx, hsame⟩ := exists_getElem?_of_forall₂ h.states hst
  have hkernel := (hjust st hmem).isKernel hps
  have hdotted : AreDotted ps st.kernel := fun item hitem =>
    (hjust st hmem).reachable.isDotted hps
      (Productions.subset_closure _ (State.dotted_mem_kernelSet ps hitem))
  obtain ⟨n, hclose⟩ := closeInPlace_eq hb hps hk ((hstaged st hmem).sound hps hk hkernel) hkernel
    hdotted
  have hitems : AreDotted ps ((st.close ps.basis).items ps.basis) :=
    areDotted_items hps hk ((State.kernel_close ps.basis st).symm ▸ hdotted)
  obtain ⟨moves, hmoves, hrange, hnames⟩ := foldlM_group hb hps hitems
  have hstart : Like b ps
      ⟨d.states.set i (core, ⟨(st.close ps.basis).items ps.basis, kept.transitions⟩), d.queue⟩
      ⟨d'.states.set i (st.close ps.basis), d'.queue⟩ := by
    refine ⟨forall₂_set h.states ⟨?_, rfl, fun q hq => ?_⟩ i, h.queue⟩
    · rw [hsame.core, State.core, State.core, State.kernel_close]
    · rw [hsame.lookup q hq, State.target?, State.target?, State.transitions_close]
  obtain ⟨v, hv, hlike⟩ := foldlM_follow hb hstart (by simpa using hi) hrange
  refine ⟨v, n, fun limit hlimit => ?_, ?_⟩
  · have hkept : closeInPlace b limit kept.items = some ((st.close ps.basis).items ps.basis) :=
      (congrArg (closeInPlace b limit) hsame.items).trans (hclose limit hlimit)
    simp only [visit, hx, hkept, hmoves, Option.bind_eq_bind, Option.bind_some]
    exact hv
  · dsimp only
    rw [State.successors_eq, ← hnames, List.map_map, List.foldl_map]
    exact hlike

/-- Where the search by symbol ends, so does the search by index, with the same states. -/
lemma run_eq (hk : ps.KeysFit) (k : Nat) (hw : d'.Working ps) (hstaged : d'.AllStaged ps.basis)
    (hqueued : d'.Queued) (h : Like b ps d d') (hend : (d'.run ps.basis k).queue = []) :
    ∃ states n, List.Forall₂ (Same b ps) states (d'.run ps.basis k).states ∧
      ∀ limit fuel, n ≤ limit → k < fuel → run b limit fuel d = some states := by
  induction k generalizing d d' with
  | zero =>
    refine ⟨d.states, 0, h.states, fun limit fuel _ hfuel => ?_⟩
    obtain ⟨fuel, rfl⟩ := Nat.exists_eq_succ_of_ne_zero (Nat.ne_of_gt hfuel)
    rw [run, h.queue.trans hend]
  | succ k ih =>
    obtain ⟨sts, queue⟩ := d'
    cases queue with
    | nil =>
      refine ⟨d.states, 0, h.states, fun limit fuel _ hfuel => ?_⟩
      obtain ⟨fuel, rfl⟩ := Nat.exists_eq_succ_of_ne_zero (Nat.ne_of_gt (Nat.zero_lt_of_lt hfuel))
      rw [run, h.queue]
    | cons i queue =>
      have hi : i < sts.length := hqueued i List.mem_cons_self
      have hlike : Like b ps ⟨d.states, queue⟩ ⟨sts, queue⟩ := ⟨h.states, rfl⟩
      obtain ⟨v, n, hvisit, hlike⟩ := visit_eq hb hps hk hlike hi hw.sound.justified hstaged
      have hqueued' : Discovery.Queued ⟨sts, queue⟩ :=
        fun j hj => hqueued j (List.mem_cons_of_mem i hj)
      have hstaged' : Discovery.AllStaged ps.basis ⟨sts, queue⟩ := hstaged
      obtain ⟨states, n', hstates, hrun⟩ := ih (hw.visit hps hk rfl).1 (hstaged'.visit i)
        (hqueued'.visit ps.basis i) hlike hend
      refine ⟨states, max n n', hstates, fun limit fuel hlimit hfuel => ?_⟩
      obtain ⟨fuel, rfl⟩ := Nat.exists_eq_succ_of_ne_zero (Nat.ne_of_gt (Nat.zero_lt_of_lt hfuel))
      rw [run, h.queue]
      dsimp only
      rw [hvisit limit (by omega), Option.bind_eq_bind, Option.bind_some]
      exact hrun limit fuel (by omega) (by omega)

/-- The states of the automaton are found by index, without an access out of range. -/
theorem automaton_eq (hk : ps.KeysFit) :
    ∃ states n, List.Forall₂ (Same b ps) states ps.basis.automaton.states ∧
      ∀ fuel, n ≤ fuel → automaton b fuel = some states := by
  have hqueued : (Discovery.initial ps.basis).Queued := by
    simp [Discovery.Queued, Discovery.initial]
  have hstaged : (Discovery.initial ps.basis).AllStaged ps.basis := fun st hst => by
    rw [List.mem_singleton.mp hst]
    exact .fresh rfl
  have hlike : Like b ps ⟨[([b.key b.lowered.start 0],
      ⟨[⟨b.key b.lowered.start 0, .singleton SymbolId.eoi⟩], []⟩)], [0]⟩
      (Discovery.initial ps.basis) := by
    rw [hb.lowered.start, key_eq hb]
    exact ⟨.cons ⟨rfl, (List.append_nil _).symm, fun _ _ => rfl⟩ .nil, rfl⟩
  obtain ⟨states, n, hstates, hrun⟩ := run_eq hb hps hk ps.basis.visitBound
    (Discovery.working_initial ps) hstaged hqueued hlike (Discovery.run_initial hps hk).2
  refine ⟨states, max n (ps.basis.visitBound + 1), hstates, fun fuel hfuel => ?_⟩
  have heoi : insert b.lowered.width .empty SymbolId.eoi = some (.singleton SymbolId.eoi) := by
    rw [insert, if_pos (hb.lowered.width ▸ hps.eoi_lt), empty_union]
  rw [automaton, heoi]
  exact hrun fuel fuel (by omega) (by omega)

end Visit

end Guarded

end ShiftReduce
