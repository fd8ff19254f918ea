import ShiftReduce.Proofs.Automaton.Construction
import ShiftReduce.Proofs.Table.Overflow
/-!
# Keys that identify items

The key of an item is its number in a mixed radix, production by production and dot by dot, of which
only the lowest 32 bits are kept. An item is got back from its key as long as nothing was cut off.
If that holds for all items of a grammar, keys can stand for items: a kernel is known by its keys in
order, and the states of the automaton are the kernels, one each. If it fails for one item, that
item is taken for another, or for none, and its kernels may be merged with those of another.

Main statement: `Grammar.Valid.keysIdentify_iff`.
-/

namespace ShiftReduce

namespace Productions

/-- The number of an item, of which the key is what fits in a word. -/
def code (ps : Productions) (i : Dotted) : Nat := i.production * ps.stride + i.dot

/-- The key of an item. -/
def keyOf (ps : Productions) (i : Dotted) : Nat := ps.basis.key i.production i.dot

/-- The keys by which a kernel is looked up. -/
def coreOf (ps : Productions) (kernel : List Dotted) : List Nat :=
  (Item.sort (kernel.map fun i => ⟨ps.keyOf i, .empty⟩)).map Item.key

/-- The automaton has its items and its kernels by their keys. -/
structure KeysIdentify (ps : Productions) (a : Automaton) : Prop where
  /-- The item of the key of an item is that item. -/
  decoded : ∀ i, ps.IsDotted i → ps.basis.dotted (ps.keyOf i) = i
  /-- No two items have the same key. -/
  distinct : ∀ i j, ps.IsDotted i → ps.IsDotted j → ps.keyOf i = ps.keyOf j → i = j
  /-- Kernels with the same keys in order have the same items. -/
  cores : ∀ k k' : List Dotted, (∀ i ∈ k, ps.IsDotted i) → (∀ i ∈ k', ps.IsDotted i) →
    (ps.coreOf k = ps.coreOf k' ↔ k.Perm k')
  /-- A state is looked up by the keys of the items of its kernel. -/
  looked_up : ∀ st ∈ a.states, ∃ k, k.Nodup ∧ (∀ i, i ∈ k ↔ i ∈ st.kernelSet ps) ∧
    (∀ i ∈ k, ps.IsDotted i) ∧ st.core = ps.coreOf k
  /-- Every kernel has a state of its own. -/
  separate : ∀ K, ps.ReachableKernel K →
    ∃! n : StateId, ∃ st : State, a.states[n]? = some st ∧ st.kernelSet ps = K

variable {ps : Productions} {target : SymbolId} {i j : Dotted} {k k' : List Dotted}

/-! ## One key -/

lemma keyOf_eq (ps : Productions) (i : Dotted) : ps.keyOf i = ps.code i % wordRange := rfl

/-- A key that gives an item back is the number of that item. -/
lemma code_eq_of_dotted {key : Nat} (h : ps.basis.dotted key = i) : ps.code i = key := by
  subst h
  exact Nat.div_add_mod' key ps.stride

/-- An item is got back from its key if and only if its number fits in a word. -/
lemma dotted_keyOf_iff (hi : ps.IsDotted i) :
    ps.basis.dotted (ps.keyOf i) = i ↔ ps.code i < wordRange := by
  constructor
  · intro h
    rw [code_eq_of_dotted h, keyOf_eq]
    exact Nat.mod_lt _ (by decide)
  · intro hfit
    obtain ⟨prod, hp, hdot⟩ := hi
    exact dotted_key_of_lt hfit (hdot.trans_lt (length_lt_stride hp))

/-- Of two items with the same key one has a number that does not fit in a word. -/
lemma code_of_keyOf_eq (hi : ps.IsDotted i) (hj : ps.IsDotted j) (hne : i ≠ j)
    (h : ps.keyOf i = ps.keyOf j) : wordRange ≤ ps.code i ∨ wordRange ≤ ps.code j := by
  by_contra hfit
  obtain ⟨hi', hj'⟩ := not_or.mp hfit
  apply hne
  rw [← (dotted_keyOf_iff hi).mpr (not_le.mp hi'), h, (dotted_keyOf_iff hj).mpr (not_le.mp hj')]

/-- The last dots of the productions have the greatest numbers. -/
lemma keysFit_iff_code : ps.KeysFit ↔ ∀ i, ps.IsDotted i → ps.code i < wordRange := by
  constructor
  · rintro hk i ⟨prod, hp, hdot⟩
    exact (Nat.add_le_add_left hdot _).trans_lt (hk _ _ hp)
  · intro h p prod hp
    exact h ⟨p, prod.rhs.length⟩ ⟨prod, hp, le_refl _⟩

/-- Keys fit if there are no more of them than words. -/
lemma keysFit_of_size (h : ps.list.size * ps.stride ≤ wordRange) : ps.KeysFit := by
  intro p prod hp
  have hsize : p + 1 ≤ ps.list.size := (Array.getElem?_eq_some_iff.mp hp).1
  have hlength := length_lt_stride hp
  calc p * ps.stride + prod.rhs.length < (p + 1) * ps.stride := by rw [Nat.succ_mul]; omega
    _ ≤ ps.list.size * ps.stride := Nat.mul_le_mul_right _ hsize
    _ ≤ wordRange := h

/-! ## The keys of a kernel -/

lemma perm_coreOf (ps : Productions) (k : List Dotted) : (ps.coreOf k).Perm (k.map ps.keyOf) := by
  have h := (Item.perm_sort (k.map fun i => ⟨ps.keyOf i, .empty⟩)).map Item.key
  rwa [List.map_map] at h

/-- Keys in order are those of a kernel if they are those of its items. -/
lemma coreOf_eq {keys : List Nat} (hsorted : keys.Pairwise (· ≤ ·))
    (hperm : keys.Perm (k.map ps.keyOf)) : ps.coreOf k = keys :=
  ((ps.perm_coreOf k).trans hperm.symm).eq_of_pairwise (fun _ _ _ _ => Nat.le_antisymm)
    (Item.sorted_sort _) hsorted

lemma map_dotted_keyOf (hk : ps.KeysFit) (h : ∀ i ∈ k, ps.IsDotted i) :
    (k.map ps.keyOf).map ps.basis.dotted = k := by
  rw [List.map_map]
  exact (List.map_congr_left fun i hi => dotted_key hk (h i hi)).trans k.map_id

lemma coreOf_eq_iff (hk : ps.KeysFit) (h : ∀ i ∈ k, ps.IsDotted i)
    (h' : ∀ i ∈ k', ps.IsDotted i) : ps.coreOf k = ps.coreOf k' ↔ k.Perm k' := by
  constructor
  · intro heq
    have hkeys : (k.map ps.keyOf).Perm (k'.map ps.keyOf) :=
      (ps.perm_coreOf k).symm.trans (heq ▸ ps.perm_coreOf k')
    have hitems := hkeys.map ps.basis.dotted
    rwa [map_dotted_keyOf hk h, map_dotted_keyOf hk h'] at hitems
  · intro hperm
    exact coreOf_eq (Item.sorted_sort _) ((ps.perm_coreOf k').trans (hperm.map ps.keyOf).symm)

/-- The core of a state of the automaton is that of a list of its kernel's items. -/
lemma exists_kernel_of_justified (hps : ps.Proper target) (hk : ps.KeysFit) {st : State}
    (h : st.Justified ps) : ∃ k, k.Nodup ∧ (∀ i, i ∈ k ↔ i ∈ st.kernelSet ps) ∧
      (∀ i ∈ k, ps.IsDotted i) ∧ st.core = ps.coreOf k := by
  have hdotted : ∀ i ∈ st.core.map ps.basis.dotted, ps.IsDotted i := by
    intro i hi
    exact h.reachable.isDotted hps (subset_closure _ (List.mem_map.mp hi))
  have hkeys : (st.core.map ps.basis.dotted).map ps.keyOf = st.core :=
    ps.dotted_injective.list_map (map_dotted_keyOf hk hdotted)
  refine ⟨st.core.map ps.basis.dotted, ?_, fun i => List.mem_map, hdotted, ?_⟩
  · exact List.Nodup.map ps.dotted_injective (h.sorted.imp Nat.ne_of_lt)
  · exact (coreOf_eq (h.sorted.imp Nat.le_of_lt) (by rw [hkeys])).symm

/-- Keys that fit identify the items. -/
lemma KeysFit.keysIdentify (hk : ps.KeysFit) (hps : ps.Proper target) :
    ps.KeysIdentify ps.basis.automaton := by
  have hlalr := isLalr_automaton hps hk
  have hw := (Discovery.run_initial hps hk).1
  refine ⟨fun i hi => dotted_key hk hi, fun i j hi hj heq => ?_, fun k k' h h' => ?_,
    fun st hst => ?_, fun K hK => ?_⟩
  · rw [← dotted_key hk hi, ← dotted_key hk hj]
    exact congrArg ps.basis.dotted heq
  · exact coreOf_eq_iff hk h h'
  · exact exists_kernel_of_justified hps hk (hw.sound.justified st hst)
  · obtain ⟨st, hst, hset⟩ := hlalr.complete K hK
    obtain ⟨n, hn⟩ := List.mem_iff_getElem?.mp hst
    refine ⟨n, ⟨st, hn, hset⟩, ?_⟩
    rintro n' ⟨st', hn', hset'⟩
    exact hlalr.distinct n' n st' st hn' hn (hset'.trans hset.symm)

/-- Keys that identify the items fit. -/
lemma KeysIdentify.keysFit {a : Automaton} (h : ps.KeysIdentify a) : ps.KeysFit :=
  keysFit_iff_code.mpr fun i hi => (dotted_keyOf_iff hi).mp (h.decoded i hi)

end Productions

namespace Grammar

variable {g : Grammar} {a : Automaton}

/-- An item is got back from its key exactly if its number fits in a word, and two items share a
key only if one of them does not fit. The keys of all items fit exactly if they identify the items
and the kernels of the automaton. -/
theorem Valid.keysIdentify_iff (hg : g.Valid) (ha : g.automaton = .ok a) :
    ∃ target, g.target = some target ∧
      let ps := g.productions target
      (∀ i, ps.IsDotted i → (ps.basis.dotted (ps.keyOf i) = i ↔ ps.code i < wordRange)) ∧
      (∀ i j, ps.IsDotted i → ps.IsDotted j → i ≠ j → ps.keyOf i = ps.keyOf j →
        wordRange ≤ ps.code i ∨ wordRange ≤ ps.code j) ∧
      (ps.KeysIdentify a ↔ g.KeysFit) := by
  obtain ⟨target, htarget, -, rfl⟩ := automaton_eq_ok ha
  have hps := hg.proper_productions htarget
  refine ⟨target, htarget, fun i hi => Productions.dotted_keyOf_iff hi,
    fun i j hi hj => Productions.code_of_keyOf_eq hi hj, fun h => ?_, fun hk => ?_⟩
  · intro target' htarget'
    obtain rfl : target = target' := Option.some.inj (htarget.symm.trans htarget')
    exact h.keysFit
  · exact (hk target htarget).keysIdentify hps

variable {n m : Nat}

lemma keysFit_crowded (hn : 2 ≤ n) (hfit : (m + 5) * (n + 1) ≤ wordRange) :
    (crowded n m).KeysFit := by
  rintro target ⟨⟩
  refine Productions.keysFit_of_size ?_
  rw [crowded_stride hn]
  exact (hasCrowd_crowded n m).size (by omega : n ≠ 0) ▸ hfit

/-- There are as many numbers for items of this grammar as there are words. -/
theorem keysIdentify_filled : (crowded 1048575 4091).Valid ∧
    ∃ a, (crowded 1048575 4091).automaton = .ok a ∧
      ((crowded 1048575 4091).productions 2).KeysIdentify a := by
  have hvalid : (crowded 1048575 4091).Valid := valid_crowded (by decide)
  have ha := automaton_crowded 1048575 4091
  obtain ⟨target, htarget, -, -, hiff⟩ := hvalid.keysIdentify_iff ha
  obtain rfl : 2 = target := Option.some.inj htarget
  exact ⟨hvalid, _, ha, hiff.mpr (keysFit_crowded (by decide) (by decide))⟩

/-- With keys that wrap around, no state has an item of the last production in its kernel. -/
lemma production_le_of_mem_kernelSet (h : Wraps n m) {st : State}
    (hst : st ∈ (crowdedBasis n m).automaton.states) {i : Dotted}
    (hi : i ∈ st.kernelSet ((crowded n m).productions 2)) : i.production ≤ 2 := by
  have hkernel : ∀ {p d : Nat}, p ≤ 2 → d ≤ 2 → st.core = [(crowdedBasis n m).key p d] →
      i.production ≤ 2 := by
    intro p d hp hd hcore
    obtain ⟨key, hkey, rfl⟩ := hi
    rw [hcore, List.mem_singleton] at hkey
    rw [hkey]
    exact (congrArg Dotted.production (crowded_dotted h hp hd)).trans_le hp
  rw [crowded_automaton h _ rfl] at hst
  simp only [List.mem_cons, List.not_mem_nil, or_false] at hst
  rcases hst with rfl | rfl | rfl | rfl | rfl
  · exact hkernel (p := 0) (d := 0) (by decide) (by decide) rfl
  · exact hkernel (p := 0) (d := 1) (by decide) (by decide) rfl
  · exact hkernel (p := 1) (d := 1) (by decide) (by decide) rfl
  · exact hkernel (p := 2) (d := 1) (by decide) (by decide) rfl
  · exact hkernel (p := 2) (d := 2) (by decide) (by decide) rfl

/-- With one rule more, the last production has the number `2^12`, and what begins it has the key
of `^ → . S`. The kernel entered over `y` is looked up by the keys of `^ → S .`, and no state is
its own. -/
theorem keys_confused_overfull : overfull.Valid ∧ overfull.target = some 2 ∧
    ∃ a, overfull.automaton = .ok a ∧
    let ps := overfull.productions 2
    ps.get? 4096 = some ⟨4, [.terminal 7], some 4095⟩ ∧
    ps.keyOf ⟨4096, 0⟩ = ps.keyOf ⟨0, 0⟩ ∧ ps.basis.dotted (ps.keyOf ⟨4096, 0⟩) = ⟨0, 0⟩ ∧
    ps.ReachableKernel {⟨0, 1⟩} ∧ ps.ReachableKernel {⟨4096, 1⟩} ∧
    ps.coreOf [⟨0, 1⟩] = ps.coreOf [⟨4096, 1⟩] ∧
    (∀ st ∈ a.states, st.kernelSet ps ≠ {⟨4096, 1⟩}) ∧ ¬ ps.KeysIdentify a := by
  have hwraps := wraps_overfull
  have hn : (1048575 : Nat) ≠ 0 := by decide
  have hlast := (hasCrowd_crowded 1048575 4092).get?_last hn
  have hkey : ∀ d, ((crowded 1048575 4092).productions 2).keyOf ⟨4092 + 4, d⟩ =
      ((crowded 1048575 4092).productions 2).keyOf ⟨0, d⟩ := crowded_key_last hwraps
  have hdotted : ((crowded 1048575 4092).productions 2).basis.dotted
      (((crowded 1048575 4092).productions 2).keyOf ⟨4092 + 4, 0⟩) = ⟨0, 0⟩ := by
    rw [hkey]
    exact Basis.dotted_start _
  obtain ⟨haccepted, hentered⟩ := crowded_reachableKernel (m := 4092) hn
  refine ⟨valid_crowded hn, rfl, _, automaton_crowded 1048575 4092, hlast, hkey 0, hdotted,
    haccepted, hentered, ?_, fun st hst hset => ?_, fun hident => ?_⟩
  · show ((crowded 1048575 4092).productions 2).coreOf [⟨0, 1⟩] =
      ((crowded 1048575 4092).productions 2).coreOf [⟨4092 + 4, 1⟩]
    simp only [Productions.coreOf, List.map_cons, List.map_nil, hkey]
  · have hmem : ⟨4096, 1⟩ ∈ st.kernelSet ((crowded 1048575 4092).productions 2) := hset ▸ rfl
    have hle := production_le_of_mem_kernelSet hwraps hst hmem
    exact absurd hle (by decide)
  · have hsame := hident.decoded ⟨4092 + 4, 0⟩ ⟨_, hlast, Nat.zero_le _⟩
    exact absurd (hdotted.symm.trans hsame) (by decide)

end Grammar

end ShiftReduce
