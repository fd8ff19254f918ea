import ShiftReduce.Automaton.Basic
import ShiftReduce.Proofs.Automaton.State
import Mathlib.Data.Finset.Powerset
/-!
# The discovery of states

A visit keeps every state justified and keeps different states different. A state that is not in
the queue is settled: its closure is complete, and every kernel entered from it lies in the state
that its transition names. Visiting a state settles it, unless it is queued again because one of its
own successors made its kernel grow.

A visit takes one state off the queue and puts one on it for every state found and for every kernel
that grows. States and lookaheads of kernels are finitely many, so the queue runs empty.

Main statements: `Discovery.run_spec` and `Discovery.extends_run`.
-/

namespace ShiftReduce

/-- The terminal is a lookahead of the item of the key. -/
def Holds (kernel : List Item) (key : Nat) (t : SymbolId) : Prop :=
  ∃ item ∈ kernel, item.key = key ∧ t ∈ item.lookaheads

/-! ## Merging kernels -/

section Merge

variable {k k' : List Item} {key : Nat} {t : SymbolId}

lemma holds_cons {item : Item} :
    Holds (item :: k) key t ↔ item.key = key ∧ t ∈ item.lookaheads ∨ Holds k key t := by
  simp [Holds, or_and_right, exists_or]

lemma key_mem_of_holds (h : Holds k key t) : key ∈ k.map Item.key := by
  obtain ⟨item, hitem, rfl, -⟩ := h
  exact List.mem_map_of_mem hitem

/-- Kernels of the same keys, all different, and the same lookaheads are the same. -/
lemma kernel_ext (hkeys : k.map Item.key = k'.map Item.key) (hnodup : (k.map Item.key).Nodup)
    (h : ∀ key t, Holds k key t ↔ Holds k' key t) : k = k' := by
  induction k generalizing k' with
  | nil =>
    rw [List.map_nil, eq_comm, List.map_eq_nil_iff] at hkeys
    exact hkeys.symm
  | cons item k ih =>
    cases k' with
    | nil => simp at hkeys
    | cons item' k' =>
      rw [List.map_cons, List.map_cons, List.cons.injEq] at hkeys
      obtain ⟨hkey, hkeys⟩ := hkeys
      obtain ⟨hnot, hnodup⟩ := List.nodup_cons.mp hnodup
      -- no other item has the key of the first, so its lookaheads are the first one's
      have hnot' : item'.key ∉ k'.map Item.key := hkeys ▸ hkey ▸ hnot
      have hla : item.lookaheads = item'.lookaheads := by
        refine TerminalSet.ext_mem fun t => ?_
        have h₁ : ¬ Holds k item.key t := fun hh => hnot (key_mem_of_holds hh)
        have h₂ : ¬ Holds k' item.key t := fun hh => hnot' (hkey ▸ key_mem_of_holds hh)
        have := h item.key t
        rw [holds_cons, holds_cons] at this
        tauto
      have hitem : item = item' := by
        cases item
        cases item'
        simp_all
      rw [hitem, ih hkeys hnodup fun key t => ?_]
      have := h key t
      rw [holds_cons, holds_cons, hitem] at this
      by_cases hk : item'.key = key
      · subst hk
        exact iff_of_false (fun hh => hnot (hkey ▸ key_mem_of_holds hh))
          fun hh => hnot' (key_mem_of_holds hh)
      · simpa [hk] using this

lemma map_key_merge {f : Item → Item → TerminalSet} (h : k.map Item.key = k'.map Item.key) :
    (k.zipWith (fun a b => ⟨a.key, f a b⟩) k').map Item.key = k.map Item.key := by
  induction k generalizing k' with
  | nil => rfl
  | cons item k ih =>
    cases k' with
    | nil => simp at h
    | cons item' k' =>
      rw [List.map_cons, List.map_cons, List.cons.injEq] at h
      rw [List.zipWith_cons_cons, List.map_cons, ih h.2, List.map_cons]

lemma holds_zipWith (h : k.map Item.key = k'.map Item.key) :
    Holds (k.zipWith (fun a b => ⟨a.key, a.lookaheads.union b.lookaheads⟩) k') key t ↔
      Holds k key t ∨ Holds k' key t := by
  induction k generalizing k' with
  | nil =>
    rw [List.map_nil, eq_comm, List.map_eq_nil_iff] at h
    subst h
    simp [Holds]
  | cons item k ih =>
    cases k' with
    | nil => simp at h
    | cons item' k' =>
      rw [List.map_cons, List.map_cons, List.cons.injEq] at h
      rw [List.zipWith_cons_cons, holds_cons, holds_cons, holds_cons, ih h.2, ← h.1,
        TerminalSet.mem_union]
      tauto

end Merge

namespace State

variable {st st' : State} {k : List Item} {key : Nat} {t : SymbolId}

lemma core_merge (h : st.core = k.map Item.key) : (st.merge k).core = st.core := map_key_merge h

lemma holds_merge (h : st.core = k.map Item.key) :
    Holds (st.merge k).kernel key t ↔ Holds st.kernel key t ∨ Holds k key t := holds_zipWith h

/-- A kernel that changes when another is merged into it gains a lookahead. -/
lemma exists_gain (h : st.core = k.map Item.key) (hsorted : st.core.Pairwise (· < ·))
    (hne : st.merge k ≠ st) : ∃ key t, Holds k key t ∧ ¬ Holds st.kernel key t := by
  by_contra hno
  simp only [not_exists, not_and, not_not] at hno
  refine hne ?_
  have hkernel : (st.merge k).kernel = st.kernel := by
    refine kernel_ext (core_merge h) ?_ fun key t => ?_
    · show (st.merge k).core.Nodup
      rw [core_merge h]
      exact hsorted.imp Nat.ne_of_lt
    · rw [holds_merge h]
      exact ⟨fun hh => hh.elim id (hno key t), .inl⟩
  show { st with kernel := (st.merge k).kernel } = st
  rw [hkernel]

/-- The state has the keys of the kernel and at least its lookaheads. -/
def Covers (st : State) (k : List Item) : Prop :=
  st.core = k.map Item.key ∧ ∀ key t, Holds k key t → Holds st.kernel key t

end State

/-! ## Recording transitions -/

namespace State

variable {st : State} {part q : Part} {dest e : StateId}

lemma target?_setTarget :
    (st.setTarget part dest).target? q = if q = part then some dest else st.target? q := by
  have hmap : ∀ l : List (Part × StateId), (l.any fun t => t.1 == part) = true →
      (l.map fun t => if t.1 = part then (part, dest) else t).lookup q =
        if q = part then some dest else l.lookup q := by
    intro l hl
    induction l with
    | nil => simp at hl
    | cons t l ih =>
      obtain ⟨p, e⟩ := t
      rw [List.map_cons]
      by_cases hp : p = part
      · subst hp
        by_cases hq : q = p
        · simp [hq]
        · have hq' : (q == p) = false := beq_eq_false_iff_ne.mpr hq
          -- over other parts than `p` the list is not changed
          have hrest : (l.map fun t => if t.1 = p then (p, dest) else t).lookup q = l.lookup q := by
            clear ih hl
            induction l with
            | nil => rfl
            | cons t l ih =>
              obtain ⟨r, e⟩ := t
              by_cases hr : r = p
              · simp [hr, List.lookup_cons, hq', ih]
              · simp [hr, List.lookup_cons, ih]
          simp [hq, List.lookup_cons, hq', hrest]
      · have hl' : (l.any fun t => t.1 == part) = true := by simpa [hp] using hl
        have ih := ih hl'
        by_cases hq : q = p
        · simp [hq, hp]
        · simp [hp, List.lookup_cons, beq_eq_false_iff_ne.mpr hq, ih]
  rw [target?, setTarget]
  split
  · next hany => exact hmap _ hany
  · next hany =>
    have hnone : st.transitions.lookup part = none := by
      rw [List.lookup_eq_none_iff]
      intro t ht
      rw [bne_iff_ne]
      rintro rfl
      exact hany (List.any_eq_true.mpr ⟨t, ht, beq_self_eq_true _⟩)
    by_cases hq : q = part
    · simp [List.lookup_append, hq, hnone]
    · simp [List.lookup_append, hq, target?, List.lookup_cons, beq_eq_false_iff_ne.mpr hq]

lemma mem_transitions_setTarget (h : (q, e) ∈ (st.setTarget part dest).transitions) :
    q = part ∧ e = dest ∨ (q, e) ∈ st.transitions := by
  simp only [setTarget] at h
  split at h
  · obtain ⟨t, ht, heq⟩ := List.mem_map.mp h
    split at heq
    · obtain ⟨rfl, rfl⟩ := Prod.mk.inj heq
      exact .inl ⟨rfl, rfl⟩
    · exact .inr (heq ▸ ht)
  · rcases List.mem_append.mp h with h | h
    · exact .inr h
    · exact .inl (Prod.mk.inj (List.mem_singleton.mp h))

end State

namespace Discovery

variable {ps : Productions} {target : SymbolId} {d d' d'' : Discovery} {i j dest : StateId}
  {st st' : State} {k : List Item} {part : Part}

/-! ## Growth -/

/-- Every state of the first discovery is one of the second, perhaps with more lookaheads. -/
def Extends (d d' : Discovery) : Prop :=
  ∀ (i : StateId) (st : State), d.states[i]? = some st →
    ∃ st', d'.states[i]? = some st' ∧ st'.core = st.core ∧
      ∀ key t, Holds st.kernel key t → Holds st'.kernel key t

lemma Extends.refl (d : Discovery) : d.Extends d := fun _ st h => ⟨st, h, rfl, fun _ _ hh => hh⟩

lemma Extends.trans (h : d.Extends d') (h' : d'.Extends d'') : d.Extends d'' := by
  intro i st hst
  obtain ⟨st', hst', hcore', hholds'⟩ := h i st hst
  obtain ⟨st'', hst'', hcore'', hholds''⟩ := h' i st' hst'
  exact ⟨st'', hst'', hcore''.trans hcore', fun key t hh => hholds'' key t (hholds' key t hh)⟩

lemma extends_set (h : d.states[i]? = some st) (hcore : st'.core = st.core)
    (hholds : ∀ key t, Holds st.kernel key t → Holds st'.kernel key t) (queue : List StateId) :
    d.Extends ⟨d.states.set i st', queue⟩ := by
  intro j stj hj
  by_cases hij : i = j
  · subst hij
    rw [h, Option.some.injEq] at hj
    subst hj
    exact ⟨st', by simp [(List.getElem?_eq_some_iff.mp h).1], hcore, hholds⟩
  · exact ⟨stj, by simpa [List.getElem?_set_ne hij] using hj, rfl, fun _ _ hh => hh⟩

lemma extends_append (d : Discovery) (st : State) (queue : List StateId) :
    d.Extends ⟨d.states ++ [st], queue⟩ := by
  intro j stj hj
  refine ⟨stj, ?_, rfl, fun _ _ hh => hh⟩
  exact (List.getElem?_append_left (List.getElem?_eq_some_iff.mp hj).1).trans hj

/-- Entering a kernel appends a state or raises one. -/
lemma extends_enter (d : Discovery) (kernel : List Item) : d.Extends (d.enter kernel).2 := by
  rw [enter]
  split
  · exact extends_append d _ _
  · next i hi =>
    obtain ⟨hlt, hcore, -⟩ := List.findIdx?_eq_some_iff_getElem.mp hi
    have hcore : d.states[i].core = kernel.map Item.key := by simpa using hcore
    have hst : d.states[i]? = some d.states[i] := List.getElem?_eq_getElem hlt
    simp only [List.getD_eq_getElem?_getD, hst, Option.getD_some]
    split
    · exact .refl d
    · refine extends_set hst (State.core_merge hcore) (fun key t hh => ?_) _
      exact (State.holds_merge hcore).mpr (.inl hh)

lemma extends_follow (d : Discovery) (i : StateId) (move : Part × List Item) :
    d.Extends (follow i d move) := by
  refine (extends_enter d move.2).trans fun j st hst => ?_
  have hfollow : (follow i d move).states[j]? =
      some (if i = j then st.setTarget move.1 (d.enter move.2).1 else st) := by
    rw [follow, List.getElem?_modify, hst]
    rfl
  refine ⟨_, hfollow, ?_⟩
  split <;> exact ⟨rfl, fun _ _ hh => hh⟩

lemma extends_visit (d : Discovery) (b : Basis) (i : StateId) : d.Extends (d.visit b i) := by
  rw [visit]
  split
  · exact .refl d
  · next st hst =>
    have hkernel : (st.close b).kernel = st.kernel := State.kernel_close b st
    have hclose : d.Extends { d with states := d.states.set i (st.close b) } :=
      extends_set hst (congrArg (List.map Item.key) hkernel) (fun _ _ hh => hkernel ▸ hh) d.queue
    exact List.foldlRecOn _ _ hclose fun d' h move _ => h.trans (extends_follow d' i move)

/-- However long a discovery goes on, and whatever the keys are, the states that were found stay,
each with its core. -/
lemma extends_run (d : Discovery) (b : Basis) (fuel : Nat) : d.Extends (d.run b fuel) := by
  induction fuel generalizing d with
  | zero => exact .refl d
  | succ fuel ih =>
    rw [run]
    split
    · exact .refl d
    · next i queue _ =>
      have hvisit : d.Extends (visit b { d with queue } i) := extends_visit { d with queue } b i
      exact hvisit.trans (ih _)

lemma map_core_set (h : d.states[i]? = some st) (hcore : st'.core = st.core) :
    (d.states.set i st').map State.core = d.states.map State.core := by
  obtain ⟨hi, rfl⟩ := List.getElem?_eq_some_iff.mp h
  rw [List.map_set, hcore, ← List.getElem_map State.core (h := by simpa using hi)]
  exact List.set_getElem_self _

/-- The state is left over the part to a state with the kernel entered there. -/
def Leads (ps : Productions) (d : Discovery) (st : State) (part : Part) (dest : StateId) : Prop :=
  ∃ st', d.states[dest]? = some st' ∧ (ps.goto (ps.closure (st.kernelSet ps)) part).Nonempty ∧
    st'.kernelSet ps = ps.goto (ps.closure (st.kernelSet ps)) part

lemma Leads.extends (h : Leads ps d st part dest) (hext : d.Extends d')
    (hcore : st'.core = st.core) : Leads ps d' st' part dest := by
  obtain ⟨st₁, hst₁, hne, hset⟩ := h
  obtain ⟨st₂, hst₂, hcore₂, -⟩ := hext dest st₁ hst₁
  simp only [Leads, State.kernelSet, hcore] at hne hset ⊢
  exact ⟨st₂, hst₂, hne, by rw [hcore₂, hset]⟩

/-- The states are different states of the LALR automaton, the first being its start, and their
transitions are right. -/
structure Sound (ps : Productions) (d : Discovery) : Prop where
  start : ∃ st, d.states[0]? = some st ∧ st.kernelSet ps = {Dotted.start} ∧
    Holds st.kernel (ps.basis.key 0 0) SymbolId.eoi
  justified : ∀ st ∈ d.states, st.Justified ps
  distinct : (d.states.map State.core).Nodup
  transitions : ∀ st ∈ d.states, ∀ part dest, (part, dest) ∈ st.transitions →
    Leads ps d st part dest

/-- What is to be shown of a discovery that extends a sound one. -/
lemma Sound.extends (h : d.Sound ps) (hext : d.Extends d')
    (hjust : ∀ st ∈ d'.states, st.Justified ps) (hdistinct : (d'.states.map State.core).Nodup)
    (htrans : ∀ st' ∈ d'.states, ∀ part dest, (part, dest) ∈ st'.transitions →
      (∃ st ∈ d.states, st'.core = st.core ∧ (part, dest) ∈ st.transitions) ∨
        Leads ps d' st' part dest) : d'.Sound ps where
  start := by
    obtain ⟨st, hst, hset, heoi⟩ := h.start
    obtain ⟨st', hst', hcore, hholds⟩ := hext 0 st hst
    exact ⟨st', hst', by rw [State.kernelSet, hcore]; exact hset, hholds _ _ heoi⟩
  justified := hjust
  distinct := hdistinct
  transitions st' hst' part dest hmem := by
    rcases htrans st' hst' part dest hmem with ⟨st, hst, hcore, hmem⟩ | hleads
    · exact (h.transitions st hst part dest hmem).extends hext hcore
    · exact hleads

/-- The queue is no part of what makes a discovery sound. -/
lemma Sound.requeue (h : d.Sound ps) (queue : List StateId) : Sound ps { d with queue } :=
  ⟨h.start, h.justified, h.distinct, h.transitions⟩

/-- A state may be replaced by a justified one over the same core that holds no fewer lookaheads, if
the transitions it gains are right. -/
lemma Sound.replace (h : d.Sound ps) (hst : d.states[i]? = some st) (hjust : st'.Justified ps)
    (hcore : st'.core = st.core)
    (hholds : ∀ key t, Holds st.kernel key t → Holds st'.kernel key t)
    (htrans : ∀ part dest, (part, dest) ∈ st'.transitions →
      (part, dest) ∈ st.transitions ∨ Leads ps d st part dest) (queue : List StateId) :
    Sound ps ⟨d.states.set i st', queue⟩ := by
  have hext := extends_set hst hcore hholds queue
  have hmem := List.mem_of_getElem? hst
  refine h.extends hext ?_ ?_ ?_
  · intro st₁ hst₁
    rcases List.mem_or_eq_of_mem_set hst₁ with hst₁ | rfl
    · exact h.justified st₁ hst₁
    · exact hjust
  · rw [map_core_set hst hcore]
    exact h.distinct
  · intro st₁ hst₁ part dest hpart
    rcases List.mem_or_eq_of_mem_set hst₁ with hst₁ | rfl
    · exact .inl ⟨st₁, hst₁, rfl, hpart⟩
    · rcases htrans part dest hpart with hold | hleads
      · exact .inl ⟨st, hmem, hcore, hold⟩
      · exact .inr (hleads.extends hext hcore)

/-! ## What there is to find -/

/-- The keys of all items. -/
def itemKeys (ps : Productions) : List Nat :=
  ps.list.toList.zipIdx.flatMap fun x =>
    (List.range (x.1.rhs.length + 1)).map (ps.basis.key x.2)

lemma length_itemKeys (ps : Productions) : (itemKeys ps).length = ps.basis.itemCount := by
  have h : ∀ (l : List Production) (n : Nat),
      ((l.zipIdx n).flatMap fun x =>
        (List.range (x.1.rhs.length + 1)).map (ps.basis.key x.2)).length =
      (l.flatMap Production.rhs).length + l.length := by
    intro l
    induction l with
    | nil => simp
    | cons p l ih =>
      intro n
      rw [List.zipIdx_cons, List.flatMap_cons, List.length_append, ih (n + 1)]
      simp only [List.length_map, List.length_range, List.flatMap_cons, List.length_append,
        List.length_cons]
      omega
  exact h ps.list.toList 0

lemma mem_itemKeys (hk : ps.KeysFit) {key : Nat} (h : ps.IsDotted (ps.basis.dotted key)) :
    key ∈ itemKeys ps := by
  have hkey : ps.basis.key (ps.basis.dotted key).production (ps.basis.dotted key).dot = key :=
    ps.dotted_injective (Productions.dotted_key hk h)
  obtain ⟨prod, hp, hdot⟩ := h
  refine List.mem_flatMap.mpr ⟨(prod, (ps.basis.dotted key).production), ?_, ?_⟩
  · rw [List.mk_mem_zipIdx_iff_getElem?, Array.getElem?_toList]
    exact hp
  · exact List.mem_map.mpr ⟨_, List.mem_range.mpr (Nat.lt_succ_of_le hdot), hkey⟩

/-- Sets of keys, alone or with one key and a terminal. -/
def findings (ps : Productions) : Finset (Finset Nat × Option (Nat × SymbolId)) :=
  (itemKeys ps).toFinset.powerset ×ˢ
    Finset.insertNone ((itemKeys ps).toFinset ×ˢ Finset.range ps.width)

lemma card_findings_lt (ps : Productions) : (findings ps).card < ps.basis.visitBound := by
  have hcard : (itemKeys ps).toFinset.card ≤ ps.basis.itemCount :=
    (List.toFinset_card_le _).trans_eq (length_itemKeys ps)
  rw [findings, Finset.card_product, Finset.card_powerset, Finset.card_insertNone,
    Finset.card_product, Finset.card_range]
  refine Nat.lt_succ_of_le (Nat.mul_le_mul (Nat.pow_le_pow_right (by decide) hcard) ?_)
  exact Nat.succ_le_succ (Nat.mul_le_mul_right _ hcard)

/-- Has a state with this core been found, and with this lookahead? -/
def Found (d : Discovery) : Finset Nat × Option (Nat × SymbolId) → Prop
  | (core, none) => ∃ st ∈ d.states, st.core.toFinset = core
  | (core, some (key, t)) => ∃ st ∈ d.states, st.core.toFinset = core ∧ Holds st.kernel key t

open Classical in
/-- What has been found. -/
noncomputable def found (ps : Productions) (d : Discovery) :
    Finset (Finset Nat × Option (Nat × SymbolId)) := (findings ps).filter d.Found

lemma Extends.found_mono (h : d.Extends d') {x : Finset Nat × Option (Nat × SymbolId)}
    (hx : d.Found x) : d'.Found x := by
  have hmem : ∀ st ∈ d.states, ∃ st' ∈ d'.states, st'.core = st.core ∧
      ∀ key t, Holds st.kernel key t → Holds st'.kernel key t := by
    intro st hst
    obtain ⟨i, hi⟩ := List.mem_iff_getElem?.mp hst
    obtain ⟨st', hst', hrest⟩ := h i st hi
    exact ⟨st', List.mem_of_getElem? hst', hrest⟩
  obtain ⟨core, _ | ⟨key, t⟩⟩ := x
  · obtain ⟨st, hst, rfl⟩ := hx
    obtain ⟨st', hst', hcore, -⟩ := hmem st hst
    exact ⟨st', hst', by rw [hcore]⟩
  · obtain ⟨st, hst, rfl, hholds⟩ := hx
    obtain ⟨st', hst', hcore, hsub⟩ := hmem st hst
    exact ⟨st', hst', by rw [hcore], hsub key t hholds⟩

lemma Extends.found_subset (h : d.Extends d') : found ps d ⊆ found ps d' := by
  classical
  intro x hx
  obtain ⟨hx, hfound⟩ := Finset.mem_filter.mp hx
  exact Finset.mem_filter.mpr ⟨hx, h.found_mono hfound⟩

lemma card_found_lt (h : d.Extends d') {x : Finset Nat × Option (Nat × SymbolId)}
    (hx : x ∈ findings ps) (hnew : ¬ d.Found x) (hfound : d'.Found x) :
    (found ps d).card < (found ps d').card := by
  classical
  refine Finset.card_lt_card (Finset.ssubset_iff_subset_ne.mpr ⟨h.found_subset, fun heq => hnew ?_⟩)
  have hmem : x ∈ found ps d' := Finset.mem_filter.mpr ⟨hx, hfound⟩
  rw [← heq] at hmem
  exact (Finset.mem_filter.mp hmem).2

section Findings

variable (hps : ps.Proper target) (hk : ps.KeysFit)

include hps hk

lemma core_subset_itemKeys (h : st.Justified ps) : st.core.toFinset ⊆ (itemKeys ps).toFinset := by
  intro key hkey
  rw [List.mem_toFinset] at hkey ⊢
  exact mem_itemKeys hk (h.reachable.isDotted hps (Productions.subset_closure _ ⟨key, hkey, rfl⟩))

lemma core_mem_findings (h : st.Justified ps) : (st.core.toFinset, none) ∈ findings ps :=
  Finset.mk_mem_product (Finset.mem_powerset.mpr (core_subset_itemKeys hps hk h))
    Finset.none_mem_insertNone

lemma holds_mem_findings (h : st.Justified ps) {key : Nat} {t : SymbolId}
    (hholds : Holds st.kernel key t) : (st.core.toFinset, some (key, t)) ∈ findings ps := by
  have hcore := core_subset_itemKeys hps hk h
  have hkey := hcore (List.mem_toFinset.mpr (key_mem_of_holds hholds))
  obtain ⟨item, hitem, rfl, ht⟩ := hholds
  have hlt := (h.kernel item hitem t ht).lt_width hps
  exact Finset.mk_mem_product (Finset.mem_powerset.mpr hcore)
    (Finset.some_mem_insertNone.mpr (Finset.mk_mem_product hkey (Finset.mem_range.mpr hlt)))

end Findings

/-- Cores are told apart by the sets of their keys. -/
lemma core_eq_of_toFinset_eq (h : st.Justified ps) (h' : st'.Justified ps)
    (heq : st.core.toFinset = st'.core.toFinset) : st.core = st'.core := by
  refine List.Pairwise.eq_of_mem_iff h.sorted h'.sorted fun key => ?_
  rw [← List.mem_toFinset, heq, List.mem_toFinset]

/-! ## Entering a kernel -/

lemma justified_merge (h : st.Justified ps) (hkernel : (State.ofKernel k).Justified ps)
    (hcore : st.core = k.map Item.key) : (st.merge k).Justified ps := by
  have hcore' := State.core_merge hcore
  have hset : (st.merge k).kernelSet ps = st.kernelSet ps := by
    rw [State.kernelSet, hcore', State.kernelSet]
  have hsetk : (State.ofKernel k).kernelSet ps = st.kernelSet ps := by
    rw [State.kernelSet, State.kernelSet, hcore]
    rfl
  refine ⟨hcore'.symm ▸ h.sorted, hset.symm ▸ h.reachable, ?_, h.nodup, hset.symm ▸ h.closure⟩
  intro item hitem t ht
  have hholds : Holds (st.merge k).kernel item.key t := ⟨item, hitem, rfl, ht⟩
  rw [hset]
  rcases (State.holds_merge hcore).mp hholds with
    ⟨item', hitem', hkey, ht'⟩ | ⟨item', hitem', hkey, ht'⟩
  · exact hkey ▸ h.kernel item' hitem' t ht'
  · exact hkey ▸ hsetk ▸ hkernel.kernel item' hitem' t ht'

/-- What comes of entering a kernel. -/
structure Entered (ps : Productions) (d : Discovery) (k : List Item) (dest : StateId)
    (d' : Discovery) : Prop where
  sound : d'.Sound ps
  grown : d.Extends d'
  covers : ∃ st, d'.states[dest]? = some st ∧ st.Covers k
  queued : ∀ j ∈ d.queue, j ∈ d'.queue
  same : ∀ j, j ∈ d'.queue ∨ d'.states[j]? = d.states[j]?
  cost : d'.queue.length + (found ps d).card ≤ d.queue.length + (found ps d').card

lemma entered_same (hd : d.Sound ps) (hst : d.states[i]? = some st)
    (hcore : st.core = k.map Item.key) (heq : st.merge k = st) : Entered ps d k i d where
  sound := hd
  grown := .refl d
  covers := ⟨st, hst, hcore, fun _ _ hh => heq ▸ (State.holds_merge hcore).mpr (.inr hh)⟩
  queued _ hj := hj
  same _ := .inr rfl
  cost := Nat.le_refl _

section Enter

variable (hps : ps.Proper target) (hk : ps.KeysFit) (hd : d.Sound ps)
  (hkernel : (State.ofKernel k).Justified ps)

include hps hk hd hkernel

lemma entered_new (hnew : ∀ st ∈ d.states, st.core ≠ k.map Item.key) :
    Entered ps d k d.states.length
      ⟨d.states ++ [State.ofKernel k], d.queue ++ [d.states.length]⟩ where
  sound := by
    refine hd.extends (extends_append d _ _) ?_ ?_ ?_
    · intro st hst
      rcases List.mem_append.mp hst with hst | hst
      · exact hd.justified st hst
      · rw [List.mem_singleton.mp hst]
        exact hkernel
    · rw [List.map_append]
      refine List.nodup_append.mpr ⟨hd.distinct, List.nodup_singleton _, ?_⟩
      rintro c hc _ hc' rfl
      obtain ⟨st, hst, rfl⟩ := List.mem_map.mp hc
      exact hnew st hst (List.mem_singleton.mp hc')
    · intro st hst part dest hmem
      rcases List.mem_append.mp hst with hst | hst
      · exact .inl ⟨st, hst, rfl, hmem⟩
      · rw [List.mem_singleton.mp hst] at hmem
        exact absurd hmem List.not_mem_nil
  grown := extends_append d _ _
  covers := ⟨State.ofKernel k, by simp, rfl, fun _ _ hh => hh⟩
  queued j hj := List.mem_append_left _ hj
  same j := by
    rcases Nat.lt_trichotomy j d.states.length with hj | rfl | hj
    · exact .inr (List.getElem?_append_left hj)
    · exact .inl (by simp)
    · refine .inr ?_
      rw [List.getElem?_eq_none (by simp; omega), List.getElem?_eq_none (by omega)]
  cost := by
    -- the visit now due is paid for by the core, which was not found before
    have hlt := card_found_lt (extends_append d (State.ofKernel k) (d.queue ++ [d.states.length]))
      (core_mem_findings hps hk hkernel) ?_ ⟨State.ofKernel k, by simp, rfl⟩
    · rw [List.length_append, List.length_singleton]
      omega
    · rintro ⟨st, hst, heq⟩
      exact hnew st hst (core_eq_of_toFinset_eq (hd.justified st hst) hkernel heq)

lemma entered_grown (hst : d.states[i]? = some st) (hcore : st.core = k.map Item.key)
    (hne : st.merge k ≠ st) :
    Entered ps d k i ⟨d.states.set i (st.merge k), d.queue ++ [i]⟩ := by
  have hi := (List.getElem?_eq_some_iff.mp hst).1
  have hmem := List.mem_of_getElem? hst
  have hjust := justified_merge (hd.justified st hmem) hkernel hcore
  have hcore' := State.core_merge hcore
  have hholds : ∀ key t, Holds st.kernel key t → Holds (st.merge k).kernel key t :=
    fun key t hh => (State.holds_merge hcore).mpr (.inl hh)
  have hext := extends_set hst hcore' hholds (d.queue ++ [i])
  refine ⟨hd.replace hst hjust hcore' hholds (fun _ _ htrans => .inl htrans) _, hext, ?_,
    fun j hj => List.mem_append_left _ hj, ?_, ?_⟩
  · refine ⟨st.merge k, by simp [hi], hcore'.trans hcore, ?_⟩
    exact fun key t hh => (State.holds_merge hcore).mpr (.inr hh)
  · intro j
    by_cases hij : i = j
    · exact .inl (by simp [hij])
    · exact .inr (List.getElem?_set_ne hij)
  · -- the visit now due is paid for by a lookahead that was not found before
    obtain ⟨key, t, hgain, hnot⟩ := State.exists_gain hcore (hd.justified st hmem).sorted hne
    have hgain' : Holds (st.merge k).kernel key t := (State.holds_merge hcore).mpr (.inr hgain)
    have hlt := card_found_lt hext
      (holds_mem_findings hps hk hjust hgain') ?_
      ⟨st.merge k, List.mem_set hi _, rfl, hgain'⟩
    · rw [List.length_append, List.length_singleton]
      omega
    · rintro ⟨st₁, hst₁, heq, hheld⟩
      have hcore₁ := core_eq_of_toFinset_eq (hd.justified st₁ hst₁) hjust heq
      rw [hcore'] at hcore₁
      rw [List.inj_on_of_nodup_map hd.distinct hst₁ hmem hcore₁] at hheld
      exact hnot hheld

lemma entered : Entered ps d k (d.enter k).1 (d.enter k).2 := by
  rw [enter]
  split
  · next hnone =>
    refine entered_new hps hk hd hkernel fun st hst heq => ?_
    have := List.findIdx?_eq_none_iff.mp hnone st hst
    simp [heq] at this
  · next i hsome =>
    obtain ⟨hi, hcore, -⟩ := List.findIdx?_eq_some_iff_getElem.mp hsome
    have hcore : d.states[i].core = k.map Item.key := by simpa using hcore
    have hst : d.states[i]? = some d.states[i] := List.getElem?_eq_getElem hi
    simp only [List.getD_eq_getElem?_getD, hst, Option.getD_some]
    split
    · next heq => exact entered_same hd hst hcore heq
    · next hne => exact entered_grown hps hk hd hkernel hst hcore hne

end Enter

/-! ## Following the moves of a state -/

/-- The transition over the part of a move leads to a state that covers the kernel entered. -/
def Follows (d : Discovery) (st : State) (move : Part × List Item) : Prop :=
  ∃ dest st', st.target? move.1 = some dest ∧ d.states[dest]? = some st' ∧ st'.Covers move.2

lemma Follows.extends {move : Part × List Item} (h : d.Follows st move) (hext : d.Extends d')
    (htarget : st'.target? move.1 = st.target? move.1) : d'.Follows st' move := by
  obtain ⟨dest, st₁, hdest, hst₁, hcore, hholds⟩ := h
  obtain ⟨st₂, hst₂, hcore₂, hholds₂⟩ := hext dest st₁ hst₁
  exact ⟨dest, st₂, htarget.trans hdest, hst₂, hcore₂.trans hcore,
    fun key t hh => hholds₂ key t (hholds key t hh)⟩

/-- The state `i` over the kernel `K` is visited. Its moves are `moves`, and those in `done` have
been followed. Any other state that is not in the queue is settled. -/
structure Visiting (ps : Productions) (i : StateId) (K : Set Dotted)
    (moves done : List (Part × List Item)) (d : Discovery) : Prop where
  sound : d.Sound ps
  current : ∃ st, d.states[i]? = some st ∧ st.kernelSet ps = K ∧
    (i ∈ d.queue ∨ st.successors ps.basis = moves)
  settled : ∀ j st, d.states[j]? = some st → j ∈ d.queue ∨ st.Closed ps.basis ∧
    ∀ move ∈ st.successors ps.basis, (j = i → move ∈ done) → d.Follows st move

/-- The cost of a discovery falls with every visit. -/
def Cheaper (ps : Productions) (d d' : Discovery) : Prop :=
  d'.queue.length + (found ps d).card ≤ d.queue.length + (found ps d').card

lemma Cheaper.trans (h : Cheaper ps d d') (h' : Cheaper ps d' d'') : Cheaper ps d d'' := by
  simp only [Cheaper] at h h' ⊢
  omega

lemma modify_eq_set {α : Type} {l : List α} {i : Nat} {a : α} (f : α → α) (h : l[i]? = some a) :
    l.modify i f = l.set i (f a) := by
  refine List.ext_getElem? fun j => ?_
  rw [List.getElem?_modify, List.getElem?_set]
  by_cases hij : i = j
  · subst hij
    simp only [if_true]
    rw [if_pos (List.getElem?_eq_some_iff.mp h).1, h]
    rfl
  · simp [hij]

section Follow

variable {K : Set Dotted} {moves done : List (Part × List Item)} {move : Part × List Item}

/-- Recording a transition that is right keeps a discovery sound. -/
lemma Sound.record (hd : d.Sound ps) (hst : d.states[i]? = some st)
    (hleads : Leads ps d st part dest) :
    Sound ps { d with states := d.states.set i (st.setTarget part dest) } := by
  have h := hd.justified st (List.mem_of_getElem? hst)
  have hjust : (st.setTarget part dest).Justified ps :=
    ⟨h.sorted, h.reachable, h.kernel, h.nodup, h.closure⟩
  refine hd.replace hst hjust rfl (fun _ _ hh => hh) (fun q e htrans => ?_) d.queue
  rcases State.mem_transitions_setTarget htrans with ⟨rfl, rfl⟩ | hold
  · exact .inr hleads
  · exact .inl hold

lemma extends_record (d : Discovery) (hst : d.states[i]? = some st) (part : Part)
    (dest : StateId) :
    d.Extends { d with states := d.states.set i (st.setTarget part dest) } := by
  have hcore : (st.setTarget part dest).core = st.core := rfl
  exact extends_set hst hcore (fun _ _ hh => hh) d.queue

/-- A transition to the state entered is right, if its kernel is the set entered over the part. -/
lemma Entered.leads (he : Entered ps d k dest d') (hne : k ≠ [])
    (hset : (State.ofKernel k).kernelSet ps = ps.goto (ps.closure (st.kernelSet ps)) part) :
    Leads ps d' st part dest := by
  obtain ⟨st', hst', hcore, -⟩ := he.covers
  have hst'K : st'.kernelSet ps = (State.ofKernel k).kernelSet ps := by
    rw [State.kernelSet, hcore]
    rfl
  obtain ⟨item, hitem⟩ := List.exists_mem_of_ne_nil _ hne
  have hmem : ps.basis.dotted item.key ∈ (State.ofKernel k).kernelSet ps :=
    State.dotted_mem_kernelSet ps hitem
  exact ⟨st', hst', hset ▸ ⟨_, hmem⟩, hst'K.trans hset⟩

/-- A move has been followed once its transition is recorded. -/
lemma follows_record (hst : d.states[i]? = some st)
    (hcovers : ∃ st', d.states[dest]? = some st' ∧ st'.Covers move.2) :
    Follows { d with states := d.states.set i (st.setTarget move.1 dest) }
      (st.setTarget move.1 dest) move := by
  obtain ⟨st', hst', hcore', hholds'⟩ := hcovers
  obtain ⟨st'', hst'', hcore'', hholds''⟩ := extends_record d hst move.1 dest dest st' hst'
  exact ⟨dest, st'', by rw [State.target?_setTarget, if_pos rfl], hst'', hcore''.trans hcore',
    fun key t hh => hholds'' key t (hholds' key t hh)⟩

/-- Following a move enters its kernel and records a transition. -/
lemma follow_eq (hst : (d.enter move.2).2.states[i]? = some st) :
    Discovery.follow i d move = { (d.enter move.2).2 with
      states := (d.enter move.2).2.states.set i (st.setTarget move.1 (d.enter move.2).1) } := by
  rw [← modify_eq_set (fun st => st.setTarget move.1 (d.enter move.2).1) hst]
  rfl

variable (hps : ps.Proper target) (hk : ps.KeysFit)
  (hmoves : ∀ move ∈ moves, (State.ofKernel move.2).Justified ps ∧ move.2 ≠ [] ∧
    (State.ofKernel move.2).kernelSet ps = ps.goto (ps.closure K) move.1)
  (hdistinct : (moves.map Prod.fst).Nodup)

include hps hk hmoves hdistinct

/-- Following a move. -/
lemma Visiting.follow (hv : Visiting ps i K moves done d) (hmove : move ∈ moves)
    (hdone : ∀ m ∈ done, m ∈ moves) :
    Visiting ps i K moves (move :: done) (follow i d move) ∧ Cheaper ps d (follow i d move) := by
  obtain ⟨hjust, hne, hset⟩ := hmoves move hmove
  have he := entered hps hk hv.sound hjust
  obtain ⟨st₀, hst₀, hK, hcurrent⟩ := hv.current
  obtain ⟨st, hst, hcore, -⟩ := he.grown i st₀ hst₀
  have hKst : st.kernelSet ps = K := by rw [State.kernelSet, hcore]; exact hK
  rw [follow_eq hst]
  generalize (d.enter move.2).1 = dest at he
  generalize (d.enter move.2).2 = d₁ at he hst
  have hi := (List.getElem?_eq_some_iff.mp hst).1
  have hleads : Leads ps d₁ st move.1 dest := he.leads hne (hKst ▸ hset)
  have hext := extends_record d₁ hst move.1 dest
  have hfollows := follows_record hst he.covers
  refine ⟨⟨he.sound.record hst hleads, ?current, ?settled⟩, ?cost⟩
  case current =>
    refine ⟨st.setTarget move.1 dest, by simp [hi], hKst, ?_⟩
    -- if entering the kernel made the visited state grow, it has been queued again
    rcases hcurrent with hqueue | hsucc
    · exact .inl (he.queued i hqueue)
    · rcases he.same i with hqueue | hsame
      · exact .inl hqueue
      · rw [hst, hst₀, Option.some.injEq] at hsame
        exact .inr (hsame ▸ hsucc)
  case settled =>
    intro j stj hj
    rcases he.same j with hqueue | hsame
    · exact .inl hqueue
    by_cases hij : i = j
    · -- the state visited is as it was, except for the transition just recorded
      subst hij
      rw [hst, hst₀, Option.some.injEq] at hsame
      subst hsame
      rw [List.getElem?_set_self hi, Option.some.injEq] at hj
      subst hj
      refine (hv.settled i st hst₀).imp (he.queued i) ?_
      rintro ⟨hclosed, hold⟩
      refine ⟨hclosed, fun m hm hdone' => ?_⟩
      by_cases hpart : m.1 = move.1
      · -- another move over the same part would be this one
        have hmm : m = move := by
          rcases List.mem_cons.mp (hdone' rfl) with hm' | hm'
          · exact hm'
          · exact List.inj_on_of_nodup_map hdistinct (hdone m hm') hmove hpart
        rw [hmm]
        exact hfollows
      · have hm' : m ∈ done := by
          rcases List.mem_cons.mp (hdone' rfl) with rfl | hm'
          · exact absurd rfl hpart
          · exact hm'
        refine (hold m hm fun _ => hm').extends (he.grown.trans hext) ?_
        rw [State.target?_setTarget, if_neg hpart]
    · -- other states have changed only if they are queued
      rw [List.getElem?_set_ne hij, hsame] at hj
      refine (hv.settled j stj hj).imp (he.queued j) ?_
      rintro ⟨hclosed, hold⟩
      refine ⟨hclosed, fun m hm _ => ?_⟩
      exact (hold m hm fun h => absurd h.symm hij).extends (he.grown.trans hext) rfl
  case cost =>
    refine Cheaper.trans he.cost ?_
    exact Nat.add_le_add_left (Finset.card_le_card hext.found_subset) _

/-- Following one move after another. -/
lemma Visiting.foldl_follow (hv : Visiting ps i K moves done d) (hdone : ∀ m ∈ done, m ∈ moves)
    {todo : List (Part × List Item)} (htodo : ∀ m ∈ todo, m ∈ moves) :
    Visiting ps i K moves (todo.reverse ++ done) (todo.foldl (Discovery.follow i) d) ∧
      Cheaper ps d (todo.foldl (Discovery.follow i) d) := by
  induction todo generalizing d done with
  | nil => exact ⟨hv, Nat.le_refl _⟩
  | cons move todo ih =>
    obtain ⟨hmove, htodo⟩ := List.forall_mem_cons.mp htodo
    obtain ⟨hv', hcheap⟩ := hv.follow hps hk hmoves hdistinct hmove hdone
    obtain ⟨hv'', hcheap'⟩ := ih hv' (List.forall_mem_cons.mpr ⟨hmove, hdone⟩) htodo
    refine ⟨?_, hcheap.trans hcheap'⟩
    rw [List.reverse_cons, List.append_assoc]
    exact hv''

end Follow

/-! ## Visits -/

/-- The closure of the state is complete, and what is entered from it lies in the states that its
transitions name. -/
def Settled (ps : Productions) (d : Discovery) (st : State) : Prop :=
  st.Closed ps.basis ∧ ∀ move ∈ st.successors ps.basis, d.Follows st move

/-- The discovery is sound, and the states that are not in the queue are settled. -/
structure Working (ps : Productions) (d : Discovery) : Prop where
  sound : d.Sound ps
  settled : ∀ j st, d.states[j]? = some st → j ∈ d.queue ∨ Settled ps d st

/-- A visit is over when all moves have been followed. -/
lemma Visiting.working {K : Set Dotted} {moves done : List (Part × List Item)}
    (hv : Visiting ps i K moves done d) (hdone : ∀ m ∈ moves, m ∈ done) : d.Working ps := by
  refine ⟨hv.sound, fun j stj hj => ?_⟩
  rcases hv.settled j stj hj with hqueue | ⟨hclosed, hfollows⟩
  · exact .inl hqueue
  by_cases hij : j = i
  · subst hij
    obtain ⟨stj', hstj', -, hmoves⟩ := hv.current
    rw [hstj', Option.some.injEq] at hj
    subst hj
    refine hmoves.imp id fun hmoves => ⟨hclosed, fun m hm => hfollows m hm fun _ => ?_⟩
    rw [hmoves] at hm
    exact hdone m hm
  · exact .inr ⟨hclosed, fun m hm => hfollows m hm fun h => absurd h hij⟩

section Run

variable {queue : List StateId} (hps : ps.Proper target) (hk : ps.KeysFit)

include hps hk

/-- A visit begins with a complete closure and no move followed. -/
lemma Working.visiting (hw : d.Working ps) (hqueue : d.queue = i :: queue)
    (hst : d.states[i]? = some st) :
    Visiting ps i (st.kernelSet ps) ((st.close ps.basis).successors ps.basis) []
      ⟨d.states.set i (st.close ps.basis), queue⟩ := by
  have hi := (List.getElem?_eq_some_iff.mp hst).1
  have hjust := hw.sound.justified st (List.mem_of_getElem? hst)
  have hcore : (st.close ps.basis).core = st.core := by
    rw [State.core, State.kernel_close, State.core]
  have hholds : ∀ key t, Holds st.kernel key t → Holds (st.close ps.basis).kernel key t := by
    simp [State.kernel_close]
  have hext := extends_set hst hcore hholds queue
  refine ⟨?sound, ⟨st.close ps.basis, by simp [hi], State.Justified.kernelSet_close ps st,
    .inr rfl⟩, ?settled⟩
  case sound =>
    refine hw.sound.replace hst (hjust.close hps hk) hcore hholds (fun part dest htrans => ?_) queue
    rw [State.transitions_close] at htrans
    exact .inl htrans
  case settled =>
    intro j stj hj
    by_cases hij : i = j
    · subst hij
      rw [List.getElem?_set_self hi, Option.some.injEq] at hj
      subst hj
      -- of its moves, those followed so far are none
      exact .inr ⟨State.closed_close hps (hjust.tidy hps),
        fun m _ hnil => absurd (hnil rfl) List.not_mem_nil⟩
    · rw [List.getElem?_set_ne hij] at hj
      rcases hw.settled j stj hj with hj' | ⟨hclosed, hfollows⟩
      · rw [hqueue] at hj'
        exact .inl ((List.mem_cons.mp hj').resolve_left fun h => hij h.symm)
      · exact .inr ⟨hclosed, fun m hm _ => (hfollows m hm).extends hext rfl⟩

/-- A visit settles the state it visits, or leaves it in the queue. -/
lemma Working.visit (hw : d.Working ps) (hqueue : d.queue = i :: queue) :
    (visit ps.basis { d with queue } i).Working ps ∧
      Cheaper ps { d with queue } (visit ps.basis { d with queue } i) := by
  rw [Discovery.visit]
  split
  · next hnone =>
    -- no state has the number
    refine ⟨⟨hw.sound.requeue queue, fun j st hst => ?_⟩, Nat.le_refl _⟩
    refine (hw.settled j st hst).imp_left fun hj => ?_
    rw [hqueue] at hj
    rcases List.mem_cons.mp hj with rfl | hj
    · exact absurd (hnone.symm.trans hst) (by simp)
    · exact hj
  · next st hst =>
    have hst : d.states[i]? = some st := hst
    have hjust := hw.sound.justified st (List.mem_of_getElem? hst)
    have hclosed := State.closed_close hps (hjust.tidy hps)
    have hstart := hw.visiting hps hk hqueue hst
    have hext : Extends { d with queue } ⟨d.states.set i (st.close ps.basis), queue⟩ :=
      extends_set (d := { d with queue }) hst (by simp [State.core, State.kernel_close])
        (by simp [State.kernel_close]) queue
    have hmoves : ∀ move ∈ (st.close ps.basis).successors ps.basis,
        (State.ofKernel move.2).Justified ps ∧ move.2 ≠ [] ∧
          (State.ofKernel move.2).kernelSet ps =
            ps.goto (ps.closure (st.kernelSet ps)) move.1 := by
      intro move hmove
      have hjust' := hjust.close hps hk
      refine ⟨hjust'.successor hps hk hclosed hmove, State.Justified.successor_ne_nil hmove, ?_⟩
      rw [hjust'.kernelSet_successor hps hk hclosed hmove, State.Justified.kernelSet_close]
    obtain ⟨hv, hcheap⟩ := hstart.foldl_follow hps hk hmoves
      (State.nodup_successors ps.basis (st.close ps.basis)) (by simp) (fun _ hm => hm)
    refine ⟨hv.working (by simp), Cheaper.trans ?_ hcheap⟩
    exact Nat.add_le_add_left (Finset.card_le_card hext.found_subset) _

/-- With fuel for what is left to find and to visit, the queue runs empty. -/
lemma run_spec (hw : d.Working ps) {fuel : Nat}
    (hfuel : d.queue.length + (findings ps).card < fuel + (found ps d).card) :
    (run ps.basis fuel d).Working ps ∧ (run ps.basis fuel d).queue = [] := by
  classical
  induction fuel generalizing d with
  | zero =>
    have hle : (found ps d).card ≤ (findings ps).card :=
      Finset.card_le_card (Finset.filter_subset _ _)
    omega
  | succ fuel ih =>
    rw [run]
    split
    · next hnil => exact ⟨hw, hnil⟩
    · next i queue hqueue =>
      obtain ⟨hw', hcheap⟩ := hw.visit hps hk hqueue
      refine ih hw' ?_
      have hfound : found ps { d with queue } = found ps d := rfl
      rw [Cheaper, hfound] at hcheap
      rw [hqueue, List.length_cons] at hfuel
      have : ({ d with queue } : Discovery).queue.length = queue.length := rfl
      omega

end Run

end Discovery

/-! ## The start state -/

/-- Whatever the keys are, the items of the start state have their dots at the beginning. -/
lemma Basis.exists_key_of_start {b : Basis} {st : State} (hst : b.automaton.states[0]? = some st)
    {item : Item} (hitem : item ∈ st.items b) : ∃ p, item.key = b.key p 0 := by
  obtain ⟨st', hst', hcore, -⟩ :=
    Discovery.extends_run ⟨[State.ofKernel b.startKernel], [0]⟩ b b.visitBound 0 _ rfl
  obtain rfl : st' = st := Option.some.inj (hst'.symm.trans hst)
  rcases List.mem_append.mp hitem with hkernel | hopening
  · -- the kernel is the item that the automaton begins with
    have hkey : item.key ∈ st'.core := List.mem_map_of_mem hkernel
    rw [hcore] at hkey
    exact ⟨0, List.mem_singleton.mp hkey⟩
  · obtain ⟨c, -, hopening⟩ := List.mem_flatMap.mp hopening
    obtain ⟨p, -, rfl⟩ := List.mem_map.mp hopening
    exact ⟨p, rfl⟩

end ShiftReduce
