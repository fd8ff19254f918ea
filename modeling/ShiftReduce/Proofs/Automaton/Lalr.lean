import ShiftReduce.Proofs.Automaton.Discovery
/-!
# The automaton is the LALR(1) automaton

When the queue has run empty, every state is settled. So the states are all the reachable kernels,
each once, and the transitions are those of the LR(0) automaton. The lookaheads of the states are
LALR lookaheads, since nothing else was ever added, and they are all of them, since the LALR
lookaheads are the least ones that closure and transitions keep.
-/

namespace ShiftReduce

/-- The automaton is the LALR(1) automaton of the productions: its states are the reachable
kernels, one each and the start first, a state has the items of the closure of its kernel, its
transitions lead where the part after the dot leads, and an item has the LALR lookaheads. -/
structure Automaton.IsLalr (ps : Productions) (a : Automaton) : Prop where
  start : ∃ st, a.states[0]? = some st ∧ st.kernelSet ps = {Dotted.start}
  reachable : ∀ st ∈ a.states, ps.ReachableKernel (st.kernelSet ps)
  complete : ∀ K, ps.ReachableKernel K → ∃ st ∈ a.states, st.kernelSet ps = K
  distinct : ∀ (i j : StateId) (st st' : State), a.states[i]? = some st → a.states[j]? = some st' →
    st.kernelSet ps = st'.kernelSet ps → i = j
  items : ∀ st ∈ a.states,
    ps.basis.dottedSet ((st.items ps.basis).map Item.key) = ps.closure (st.kernelSet ps)
  nodup_items : ∀ st ∈ a.states,
    ((st.items ps.basis).map fun item => ps.basis.dotted item.key).Nodup
  goto : ∀ st ∈ a.states, ∀ part dest, st.target? part = some dest ↔
    ∃ st', a.states[dest]? = some st' ∧ (ps.goto (ps.closure (st.kernelSet ps)) part).Nonempty ∧
      st'.kernelSet ps = ps.goto (ps.closure (st.kernelSet ps)) part
  lookaheads : ∀ st ∈ a.states, ∀ item ∈ st.items ps.basis, ∀ t, t ∈ item.lookaheads ↔
    ps.Lalr (st.kernelSet ps) (ps.basis.dotted item.key) t

namespace State.Justified

variable {ps : Productions} {st st' : State}

lemma mem_core (ps : Productions) {key : Nat} :
    key ∈ st.core ↔ ps.basis.dotted key ∈ st.kernelSet ps := by
  refine ⟨fun h => ⟨key, h, rfl⟩, ?_⟩
  rintro ⟨key', hkey', heq⟩
  rwa [← ps.dotted_injective heq]

/-- Justified states over one kernel have one core. -/
lemma core_eq (h : st.Justified ps) (h' : st'.Justified ps)
    (heq : st.kernelSet ps = st'.kernelSet ps) : st.core = st'.core := by
  refine List.Pairwise.eq_of_mem_iff h.sorted h'.sorted fun key => ?_
  rw [mem_core ps, heq, ← mem_core ps]

end State.Justified

namespace Discovery

variable {ps : Productions} {target : SymbolId} {d : Discovery}

/-- The discovery from which the search for states starts. -/
def initial (b : Basis) : Discovery := ⟨[State.ofKernel b.startKernel], [0]⟩

lemma kernelSet_startKernel (ps : Productions) :
    (State.ofKernel ps.basis.startKernel).kernelSet ps = {Dotted.start} := by
  ext i
  simp [State.kernelSet, Basis.dottedSet, State.core, State.ofKernel, Basis.startKernel,
    Basis.dotted_start, eq_comm]

lemma working_initial (ps : Productions) : (initial ps.basis).Working ps := by
  have hset := kernelSet_startKernel ps
  have hjust : (State.ofKernel ps.basis.startKernel).Justified ps := by
    refine ⟨List.pairwise_singleton _ _, hset ▸ .start, ?_, List.nodup_nil,
      by simp [State.ofKernel]⟩
    intro item hitem t ht
    have hdotted := State.dotted_mem_kernelSet ps hitem
    rw [hset, Set.mem_singleton_iff] at hdotted
    rw [List.mem_singleton.mp hitem, TerminalSet.mem_singleton] at ht
    rw [hset, hdotted, ht]
    exact .start
  refine ⟨⟨⟨_, rfl, hset, _, List.mem_singleton.mpr rfl, rfl, TerminalSet.mem_singleton.mpr rfl⟩,
    ?_, List.nodup_singleton _, ?_⟩, ?_⟩
  · intro st hst
    rw [List.mem_singleton.mp hst]
    exact hjust
  · intro st hst part dest htrans
    rw [List.mem_singleton.mp hst] at htrans
    exact absurd htrans List.not_mem_nil
  · intro j st hst
    have hj := (List.getElem?_eq_some_iff.mp hst).1
    exact .inl (by simpa [initial] using hj)

/-- The search for states ends before its fuel does, with an empty queue. -/
lemma run_initial (hps : ps.Proper target) (hk : ps.KeysFit) :
    (run ps.basis ps.basis.visitBound (initial ps.basis)).Working ps ∧
      (run ps.basis ps.basis.visitBound (initial ps.basis)).queue = [] := by
  classical
  refine run_spec hps hk (working_initial ps) ?_
  have hjust := (working_initial ps).sound.justified _ (List.mem_singleton.mpr rfl)
  -- the start state has been found already, which pays for the first visit
  have hpos : 0 < (found ps (initial ps.basis)).card := by
    refine Finset.card_pos.mpr ⟨_, Finset.mem_filter.mpr ⟨core_mem_findings hps hk hjust, ?_⟩⟩
    exact ⟨_, List.mem_singleton.mpr rfl, rfl⟩
  have := card_findings_lt ps
  simp only [initial, List.length_singleton] at hpos ⊢
  omega

/-- No two states have the same kernel. -/
lemma Working.index_eq (hw : d.Working ps) {i j : StateId} {st st' : State}
    (hi : d.states[i]? = some st) (hj : d.states[j]? = some st')
    (heq : st.kernelSet ps = st'.kernelSet ps) : i = j := by
  have hcore := (hw.sound.justified st (List.mem_of_getElem? hi)).core_eq
    (hw.sound.justified st' (List.mem_of_getElem? hj)) heq
  obtain ⟨hi', rfl⟩ := List.getElem?_eq_some_iff.mp hi
  obtain ⟨hj', rfl⟩ := List.getElem?_eq_some_iff.mp hj
  have hi'' : i < (d.states.map State.core).length := by simpa using hi'
  have hj'' : j < (d.states.map State.core).length := by simpa using hj'
  have hcores : (d.states.map State.core)[i] = (d.states.map State.core)[j] := by simpa using hcore
  exact (List.Nodup.getElem_inj_iff hw.sound.distinct).mp hcores

section Finished

variable (hps : ps.Proper target) (hk : ps.KeysFit) (hw : d.Working ps) (hqueue : d.queue = [])

include hw hqueue

lemma Working.settled_of_mem {st : State} (hst : st ∈ d.states) : Settled ps d st := by
  obtain ⟨j, hj⟩ := List.mem_iff_getElem?.mp hst
  exact (hw.settled j st hj).resolve_left (by simp [hqueue])

include hps hk

/-- An item with a part after its dot is found again, with its lookaheads, in the state that the
transition over that part leads to. -/
lemma Working.exists_target {st : State} (hst : st ∈ d.states) {item : Item}
    (hitem : item ∈ st.items ps.basis) {part : Part} {β : List Part}
    (hrest : ps.rest (ps.basis.dotted item.key) = part :: β) :
    ∃ dest st', st.target? part = some dest ∧ d.states[dest]? = some st' ∧
      st'.kernelSet ps = ps.goto (ps.closure (st.kernelSet ps)) part ∧
      ∃ item' ∈ st'.kernel, ps.basis.dotted item'.key = (ps.basis.dotted item.key).advance ∧
        ∀ t ∈ item.lookaheads, t ∈ item'.lookaheads := by
  obtain ⟨hclosed, hfollows⟩ := hw.settled_of_mem hqueue hst
  obtain ⟨k, hmove, item₁, hitem₁, hdotted, hla⟩ :=
    State.Justified.exists_successor hk hitem hrest
  obtain ⟨dest, st', hdest, hst', hcore, hholds⟩ := hfollows _ hmove
  refine ⟨dest, st', hdest, hst', ?_, ?_⟩
  · rw [← (hw.sound.justified st hst).kernelSet_successor hps hk hclosed hmove, State.kernelSet,
      hcore]
    rfl
  · -- the state holds what the kernel entered holds, and no key comes twice in it
    have hkey : item₁.key ∈ st'.core := hcore ▸ List.mem_map_of_mem hitem₁
    obtain ⟨item', hitem', hkey'⟩ := List.mem_map.mp hkey
    refine ⟨item', hitem', by rw [hkey', hdotted], fun t ht => ?_⟩
    obtain ⟨item'', hitem'', hkey'', ht''⟩ := hholds item₁.key t ⟨item₁, hitem₁, rfl, hla ▸ ht⟩
    have hsame : item'' = item' :=
      List.inj_on_of_nodup_map ((hw.sound.justified st' (List.mem_of_getElem? hst')).sorted.imp
        Nat.ne_of_lt) hitem'' hitem' (hkey''.trans hkey'.symm)
    exact hsame ▸ ht''

lemma Working.complete {K : Set Dotted} (hK : ps.ReachableKernel K) :
    ∃ st ∈ d.states, st.kernelSet ps = K := by
  induction hK with
  | start =>
    obtain ⟨st, hst, hset, -⟩ := hw.sound.start
    exact ⟨st, List.mem_of_getElem? hst, hset⟩
  | @goto K part _ hne ih =>
    obtain ⟨st, hst, rfl⟩ := ih
    obtain ⟨_, i, hi, β, hrest, -⟩ := hne
    obtain ⟨item, hitem, rfl⟩ :=
      State.Justified.exists_item hps hk (hw.settled_of_mem hqueue hst).1 hi
    obtain ⟨dest, st', -, hst', hset, -⟩ := hw.exists_target hps hk hqueue hst hitem hrest
    exact ⟨st', List.mem_of_getElem? hst', hset⟩

/-- An item with a non-terminal after its dot gives to the items that begin its productions what
can follow it. -/
lemma Working.exists_opening {st : State} (hst : st ∈ d.states) {item : Item}
    (hitem : item ∈ st.items ps.basis) {s : SymbolId} {β : List Part}
    (hrest : ps.rest (ps.basis.dotted item.key) = .nonterminal s :: β) {j : Dotted}
    (hj : ps.Opening s j) :
    ∃ item' ∈ st.items ps.basis, ps.basis.dotted item'.key = j ∧
      ∀ t, ps.Begins β t ∨ ps.Nullable β ∧ t ∈ item.lookaheads → t ∈ item'.lookaheads := by
  obtain ⟨set, hset, hsub⟩ := (hw.settled_of_mem hqueue hst).1 item hitem _
    (Productions.demand?_eq_some_iff.mpr ⟨β, hrest, rfl⟩)
  obtain ⟨item', hitem', hdotted, hla⟩ := Productions.exists_opening hps hk set hj
  refine ⟨item', List.mem_append_right _ (List.mem_flatMap.mpr ⟨_, hset, hitem'⟩), hdotted, ?_⟩
  exact fun t ht => hla ▸ hsub t ((Productions.mem_ahead hps hrest).mpr ht)

/-- No LALR lookahead is missing. -/
lemma Working.exists_lookahead {st : State} (hst : st ∈ d.states) {i : Dotted} {t : SymbolId}
    (h : ps.Lalr (st.kernelSet ps) i t) :
    ∃ item ∈ st.items ps.basis, ps.basis.dotted item.key = i ∧ t ∈ item.lookaheads := by
  refine Productions.Lalr.least hps (P := fun K i t => ∀ st ∈ d.states, st.kernelSet ps = K →
    ∃ item ∈ st.items ps.basis, ps.basis.dotted item.key = i ∧ t ∈ item.lookaheads)
    ?start ?ahead ?inherited ?goto (hw.sound.justified st hst).reachable h st hst rfl
  case start =>
    -- the start state is the only one over the kernel of `^`
    rintro st hst hset
    obtain ⟨j, hj⟩ := List.mem_iff_getElem?.mp hst
    obtain ⟨st₀, hst₀, hset₀, item, hitem, -, heoi⟩ := hw.sound.start
    rw [hw.index_eq hj hst₀ (hset.trans hset₀.symm), hst₀, Option.some.injEq] at hj
    subst hj
    refine ⟨item, List.mem_append_left _ hitem, ?_, heoi⟩
    simpa [hset₀] using State.dotted_mem_kernelSet ps hitem
  case ahead =>
    rintro K i j s t β - hi hrest hj ht st hst rfl
    obtain ⟨item, hitem, rfl⟩ :=
      State.Justified.exists_item hps hk (hw.settled_of_mem hqueue hst).1 hi
    obtain ⟨item', hitem', hdotted, hla⟩ := hw.exists_opening hps hk hqueue hst hitem hrest hj
    exact ⟨item', hitem', hdotted, hla t (.inl ht)⟩
  case inherited =>
    rintro K i j s t β - ih hrest hj hβ st hst hset
    obtain ⟨item, hitem, rfl, ht⟩ := ih st hst hset
    obtain ⟨item', hitem', hdotted, hla⟩ := hw.exists_opening hps hk hqueue hst hitem hrest hj
    exact ⟨item', hitem', hdotted, hla t (.inr ⟨hβ, ht⟩)⟩
  case goto =>
    rintro K i part t β hK - ih hrest st hst hset
    obtain ⟨st₀, hst₀, rfl⟩ := hw.complete hps hk hqueue hK
    obtain ⟨item, hitem, rfl, ht⟩ := ih st₀ hst₀ rfl
    obtain ⟨dest, st', -, hst', hset', item', hitem', hdotted, hla⟩ :=
      hw.exists_target hps hk hqueue hst₀ hitem hrest
    -- the state entered is the one over this kernel
    obtain ⟨j, hj⟩ := List.mem_iff_getElem?.mp hst
    rw [hw.index_eq hj hst' (hset.trans hset'.symm), hst', Option.some.injEq] at hj
    subst hj
    exact ⟨item', List.mem_append_left _ hitem', hdotted, hla t ht⟩

/-- The states of a finished discovery are those of the LALR automaton. -/
lemma Working.isLalr : (Automaton.mk ps.basis d.states).IsLalr ps where
  start := by
    obtain ⟨st, hst, hset, -⟩ := hw.sound.start
    exact ⟨st, hst, hset⟩
  reachable st hst := (hw.sound.justified st hst).reachable
  complete _ hK := hw.complete hps hk hqueue hK
  distinct _ _ _ _ hi hj heq := hw.index_eq hi hj heq
  items st hst := (hw.sound.justified st hst).image_items hps hk (hw.settled_of_mem hqueue hst).1
  nodup_items st hst := by
    have := ((hw.sound.justified st hst).nodup_items hps hk).map ps.dotted_injective
    rwa [List.map_map] at this
  goto st hst part dest := by
    constructor
    · intro h
      exact hw.sound.transitions st hst part dest (State.mem_of_lookup h)
    · rintro ⟨st', hst', ⟨_, i, hi, β, hrest, -⟩, hset⟩
      obtain ⟨item, hitem, rfl⟩ :=
        State.Justified.exists_item hps hk (hw.settled_of_mem hqueue hst).1 hi
      obtain ⟨dest', st'', hdest, hst'', hset'', -⟩ :=
        hw.exists_target hps hk hqueue hst hitem hrest
      rw [hdest, hw.index_eq hst'' hst' (hset''.trans hset.symm)]
  lookaheads st hst item hitem t := by
    refine ⟨((hw.sound.justified st hst).mem_items hps hk hitem).2 t, fun h => ?_⟩
    obtain ⟨item', hitem', hdotted, ht⟩ := hw.exists_lookahead hps hk hqueue hst h
    have hsame := List.inj_on_of_nodup_map ((hw.sound.justified st hst).nodup_items hps hk)
      hitem' hitem (ps.dotted_injective hdotted)
    exact hsame ▸ ht

end Finished

end Discovery

/-- The automaton over proper productions whose keys fit is the LALR automaton. -/
theorem Productions.isLalr_automaton {ps : Productions} {target : SymbolId}
    (hps : ps.Proper target) (hk : ps.KeysFit) : ps.basis.automaton.IsLalr ps :=
  let ⟨hw, hqueue⟩ := Discovery.run_initial hps hk
  hw.isLalr hps hk hqueue

end ShiftReduce
