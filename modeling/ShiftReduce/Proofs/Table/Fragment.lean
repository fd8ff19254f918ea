import ShiftReduce.Proofs.Automaton.Fragment
import ShiftReduce.Proofs.Automaton.Lalr
import ShiftReduce.Proofs.Table.Reading
/-!
# The states of a fragment

The fragment of a grammar for its accepted symbol has the states of the grammar, under other keys,
and one more. Its start state is the one of the grammar with `^ → . start` as the kernel and the
start symbol in front of the closure; the state entered over the start symbol comes next, and leads
nowhere; and then come the other states of the grammar in their order.

The fragment has one symbol more, and so more rounds are allowed for a closure; but rounds after the
last one change nothing.

Main statement: `Productions.IsFragment.states_eq`.
-/

namespace ShiftReduce

/-! ## More fuel -/

lemma untilStable_of_le {α : Type} [DecidableEq α] {f : α → α} {n m : Nat} {x : α} (hle : n ≤ m)
    (hstable : f (untilStable f n x) = untilStable f n x) :
    untilStable f m x = untilStable f n x := by
  induction n generalizing m x with
  | zero =>
    cases m with
    | zero => rfl
    | succ m => exact if_pos hstable
  | succ n ih =>
    obtain ⟨m, rfl⟩ := Nat.exists_eq_add_of_le' (Nat.le_trans (Nat.succ_le_succ n.zero_le) hle)
    rw [untilStable] at hstable
    rw [untilStable, untilStable]
    by_cases hx : f x = x
    · rw [if_pos hx, if_pos hx]
    · rw [if_neg hx] at hstable
      rw [if_neg hx, if_neg hx]
      exact ih (Nat.le_of_succ_le_succ hle) hstable

lemma untilStable_succ {α : Type} [DecidableEq α] (f : α → α) (n : Nat) (x : α) :
    untilStable f (n + 1) x = untilStable f n (f x) := by
  rw [untilStable]
  split
  · next hx =>
    rw [hx]
    exact (untilStable_of_le n.zero_le hx).symm
  · rfl

lemma State.sweep_succ {b : Basis} {fuel i : Nat} {closure : List (SymbolId × TerminalSet)}
    (hlength : (sweep b fuel i closure).length ≤ i + fuel) :
    sweep b (fuel + 1) i closure = sweep b fuel i closure := by
  induction fuel generalizing i closure with
  | zero =>
    have hnone : closure[i]? = none := List.getElem?_eq_none hlength
    simp only [sweep, hnone]
  | succ fuel ih =>
    rw [sweep] at hlength
    rw [sweep, sweep]
    split
    · rfl
    · next s set hsome =>
      rw [hsome] at hlength
      exact ih (by rw [Nat.succ_add]; exact hlength)

/-- A closure is completed over a basis of one symbol more as it is over the other. -/
lemma Basis.Mirrors.close_succ {ps : Productions} {target : SymbolId} {b' : Basis} {φ : Nat → Nat}
    {I : Set Nat} {S : Set SymbolId} {st : State} (hm : ps.basis.Mirrors b' φ I S)
    (hps : ps.Proper target) (hwidth : b'.productions.width = ps.width + 1)
    (σ : StateId → StateId) (hst : st.Within I S) (htidy : st.Tidy ps.width) :
    (st.relabel φ σ).close b' = (st.close ps.basis).relabel φ σ ∧
      (st.close ps.basis).Within I S := by
  have hspread : ∀ st : State, st.Within I S ∧ st.Tidy ps.width →
      (st.relabel φ σ).spread b' = (st.spread ps.basis).relabel φ σ ∧
        (st.spread ps.basis).Within I S ∧ (st.spread ps.basis).Tidy ps.width := by
    rintro st ⟨hst, htidy⟩
    obtain ⟨hmeet, hwithin⟩ := hm.meet hst.kernel hst.closure
    have hclosure := (hm.sweep (ps.width + 1) 0 hwithin).2
    have hsweep := (hm.sweep (ps.width + 1 + 1) 0 hwithin).1
    have htidy' := htidy.spread hps
    have hlast : State.sweep ps.basis (ps.width + 1 + 1) 0
        (State.meet ps.basis st.kernel st.closure) = (st.spread ps.basis).closure :=
      State.sweep_succ (htidy'.length_le.trans (by omega))
    rw [hlast] at hsweep
    refine ⟨?_, ⟨hst.kernel, hclosure⟩, htidy'⟩
    simp only [State.spread, State.relabel, hmeet, hwidth, hsweep]
  have hmap := untilStable_map (g := State.spread b') (m := State.relabel φ σ) hspread
    (fun st _ heq => congrArg (fun closure => { st with closure }) (congrArg State.closure heq))
    ((ps.width + 1 + 1) * (ps.width + 1 + 1) + 1) ⟨hst, htidy⟩
  have hmore : untilStable (State.spread ps.basis)
      ((ps.width + 1 + 1) * (ps.width + 1 + 1) + 1) st = st.close ps.basis :=
    untilStable_of_le (Nat.succ_le_succ (Nat.mul_le_mul (Nat.le_succ _) (Nat.le_succ _)))
      (State.spread_close hps htidy)
  rw [hmore] at hmap
  refine ⟨?_, hmap.2.1⟩
  rw [State.close, hwidth]
  exact hmap.1

/-! ## Items of a fragment -/

namespace Productions

/-- Some productions have copies among those of a fragment, in the same order. The symbols that
these mention open alike there. The first of them, which begins the start state, is made the only
production of a symbol of its own, which the fragment accepts. -/
structure IsFragment (ps ps' : Productions) (target : SymbolId) (π : Nat → Nat)
    (kept : Set Production) (below : Set SymbolId) : Prop where
  proper : ps.Proper target
  fragment_proper : ps'.Proper ps.width
  width : ps'.width = ps.width + 1
  start : ∀ prod, ps.get? 0 = some prod → prod ∈ kept
  place_zero : π 0 = 1
  place_lt : ∀ {p q prod}, ps.get? p = some prod → prod ∈ kept → p < q → π p < π q
  copy : ∀ {p prod}, ps.get? p = some prod → prod ∈ kept →
    ∃ prod', ps'.get? (π p) = some prod' ∧ prod'.rhs = prod.rhs
  range_start : ps'.range ps.width = [1]
  below_rhs : ∀ {p prod}, ps.get? p = some prod → prod ∈ kept →
    ∀ s, .nonterminal s ∈ prod.rhs → s ∈ below
  openings : ∀ s ∈ below, ps'.range s = (ps.range s).map π ∧
    ∀ prod : Production, prod.lhs = s → prod ∈ kept
  below_lt : ∀ s ∈ below, s < ps.width
  ahead : ∀ β, (∀ s, .nonterminal s ∈ β → s ∈ below) → (∀ part ∈ β, part.symbol < ps.width) →
    ∀ set, (FirstSets.compute ps').ahead β set = (FirstSets.compute ps).ahead β set

/-- The items of productions that are kept, without those of the first one that have their dot
before a certain place. -/
def keptItems (ps : Productions) (kept : Set Production) (dot : Nat) : Set Dotted :=
  {i | (∃ prod, ps.get? i.production = some prod ∧ prod ∈ kept ∧ i.dot ≤ prod.rhs.length) ∧
    (i.production = 0 → dot ≤ i.dot)}

/-- The keys of these items. -/
def keptKeys (ps : Productions) (kept : Set Production) (dot : Nat) : Set Nat :=
  {key | ps.basis.dotted key ∈ ps.keptItems kept dot}

end Productions

/-- The productions of the fragment for the accepted symbol. -/
lemma Grammar.IsFragment.productions {g h : Grammar} {s : SymbolId} (hf : g.IsFragment h s) :
    (g.productions s).IsFragment (h.productions g.symbols.size) s (g.placeOf s)
      {prod | g.kept s prod = true} {t | g.Reaches s t} where
  proper := hf.proper
  fragment_proper := hf.fragment_proper
  width := hf.size_eq
  start := fun _ => hf.kept_start
  place_zero := rfl
  place_lt := Grammar.IsFragment.placeOf_lt
  copy := fun hp hkept => ⟨_, hf.get?_placeOf hp hkept, rfl⟩
  range_start := hf.range_start
  below_rhs := fun hp hkept => hf.below_rhs hp hkept
  openings := by
    refine fun t ht => ⟨hf.range_eq ht, ?_⟩
    rintro prod rfl
    exact Grammar.IsFragment.kept_of_reaches ht
  below_lt := fun _ => hf.lt_size_of_reaches
  ahead := fun _ => hf.ahead_eq

namespace Productions.IsFragment

variable {ps ps' : Productions} {target : SymbolId} {π : Nat → Nat} {kept : Set Production}
  {below : Set SymbolId} (hf : ps.IsFragment ps' target π kept below)
  (hk : ps.KeysFit) (hk' : ps'.KeysFit)

include hf hk hk'

/-- The items that are kept have places among those of the fragment. -/
lemma placed (dot : Nat) : ps.basis.Placed ps' π (ps.keptItems kept dot) below where
  mono := by
    rintro i ⟨⟨prod, hp, hkept, -⟩, -⟩ j - hlt
    exact hf.place_lt hp hkept hlt
  production := by
    rintro i ⟨⟨prod, hp, hkept, hdot⟩, -⟩
    obtain ⟨prod', hp', hrhs⟩ := hf.copy hp hkept
    exact ⟨prod, prod', hp, hp', hrhs, hdot, length_lt_stride hp, hk _ _ hp, hrhs ▸ hk' _ _ hp'⟩
  moves := by
    rintro i ⟨⟨prod, hp, hkept, -⟩, hstart⟩ prod' hp' hlt
    cases hp.symm.trans hp'
    exact ⟨⟨prod, hp, hkept, hlt⟩, fun h0 => Nat.le_succ_of_le (hstart h0)⟩
  demand := by
    rintro i ⟨⟨prod, hp, hkept, -⟩, -⟩ prod' hp' s β hrest
    cases hp.symm.trans hp'
    have hmem : ∀ part ∈ Part.nonterminal s :: β, part ∈ prod.rhs := fun part hpart =>
      List.mem_of_mem_drop (hrest ▸ hpart)
    have hβ : ∀ part ∈ β, part ∈ prod.rhs := fun part hpart =>
      hmem part (List.mem_cons_of_mem _ hpart)
    exact ⟨hf.below_rhs hp hkept s (hmem _ List.mem_cons_self),
      hf.ahead β (fun t ht => hf.below_rhs hp hkept t (hβ _ ht))
        fun part hpart => hf.proper.symbol_lt hp part (hβ part hpart)⟩
  openings := by
    intro s hs
    obtain ⟨hrange, hkept⟩ := hf.openings s hs
    have hopening : ∀ p ∈ ps.range s, ps.basis.dotted (ps.basis.key p 0) = ⟨p, 0⟩ ∧
        ⟨p, 0⟩ ∈ ps.keptItems kept dot := by
      intro p hp
      obtain ⟨prod, hprod, rfl⟩ := hf.proper.mem_range.mp hp
      refine ⟨dotted_key (i := ⟨p, 0⟩) hk ⟨prod, hprod, Nat.zero_le _⟩,
        ⟨prod, hprod, hkept prod rfl, Nat.zero_le _⟩, fun h0 => ?_⟩
      -- the first production is of a symbol that is out of range
      have h0 : p = 0 := h0
      rw [h0, hf.proper.start, Option.some.injEq] at hprod
      have hlt := hf.below_lt _ hs
      rw [← hprod] at hlt
      exact absurd hlt (Nat.lt_irrefl _)
    refine ⟨?_, fun p hp => ?_⟩
    · rw [hrange, List.map_map]
      refine List.map_congr_left fun p hp => ?_
      have hdotted := (hopening p hp).1
      simp only [Basis.dotted, Dotted.mk.injEq] at hdotted
      rw [Function.comp_apply, Basis.placeKey, hdotted.1, hdotted.2]
    · obtain ⟨hdotted, hmem⟩ := hopening p hp
      exact hdotted.symm ▸ hmem

lemma mirrors (dot : Nat) : ps.basis.Mirrors ps'.basis (ps.basis.placeKey ps' π)
    (ps.keptKeys kept dot) below :=
  (hf.placed hk hk' dot).mirrors

end Productions.IsFragment

/-! ## A symbol in front of a closure -/

namespace Basis.Mirrors

variable {b b' : Basis} {φ : Nat → Nat} {I : Set Nat} {S : Set SymbolId} {l : List Item}
  {closure : List (SymbolId × TerminalSet)} {s : SymbolId} {set : TerminalSet}

/-- A symbol that is not demanded stays in front. -/
lemma meet_cons (hm : b.Mirrors b' φ I S) (hs : s ∉ S) (hl : ∀ item ∈ l, item.key ∈ I)
    (hclosure : ∀ x ∈ closure, x.1 ∈ S) :
    State.meet b' (l.map (Item.rekey φ)) ((s, set) :: closure) =
      (s, set) :: State.meet b l closure := by
  have hraise : ∀ (demands closure : List (SymbolId × TerminalSet)), (∀ d ∈ demands, d.1 ∈ S) →
      demands.foldl raise ((s, set) :: closure) = (s, set) :: demands.foldl raise closure := by
    intro demands
    induction demands with
    | nil => exact fun _ _ => rfl
    | cons d demands ih =>
      intro closure hdemands
      obtain ⟨hd, hdemands⟩ := List.forall_mem_cons.mp hdemands
      have hne : s ≠ d.1 := fun heq => hs (heq ▸ hd)
      rw [List.foldl_cons, raise, if_neg hne, ih _ hdemands, List.foldl_cons]
  rw [← (hm.meet hl hclosure).1]
  refine hraise _ _ fun d hd => ?_
  obtain ⟨item', hitem', hd⟩ := List.mem_filterMap.mp hd
  obtain ⟨item, hitem, rfl⟩ := List.mem_map.mp hitem'
  obtain ⟨hdemand, hS⟩ := hm.demand item (hl item hitem)
  exact hS d (hdemand ▸ hd)

lemma sweep_cons (hm : b.Mirrors b' φ I S) (hs : s ∉ S) (fuel i : Nat)
    (hclosure : ∀ x ∈ closure, x.1 ∈ S) :
    State.sweep b' fuel (i + 1) ((s, set) :: closure) =
      (s, set) :: State.sweep b fuel i closure := by
  induction fuel generalizing i closure with
  | zero => rfl
  | succ fuel ih =>
    rw [State.sweep, State.sweep, List.getElem?_cons_succ]
    cases hsome : closure[i]? with
    | none => rfl
    | some x =>
      obtain ⟨t, set'⟩ := x
      obtain ⟨heq, hkeys⟩ := hm.openings t (hclosure _ (List.mem_of_getElem? hsome)) set'
      show State.sweep b' fuel (i + 1 + 1)
        (State.meet b' (b'.openings t set') ((s, set) :: closure)) = _
      rw [heq, hm.meet_cons hs hkeys hclosure]
      exact ih (i + 1) (hm.meet hkeys hclosure).2

end Basis.Mirrors

/-! ## The start state -/

/-- The start state of the fragment has the items of the one of the grammar behind its own. -/
def State.front (b : Basis) (start : SymbolId) (transitions : List (Part × StateId)) (st : State) :
    State :=
  ⟨b.startKernel, (start, .singleton SymbolId.eoi) :: st.closure, transitions⟩

lemma Productions.Proper.remaining_start {ps : Productions} {target : SymbolId}
    (hps : ps.Proper target) : ps.basis.remaining (ps.basis.key 0 0) = [.nonterminal target] := by
  rw [remaining_eq_rest, Basis.dotted_start, rest_eq (i := Dotted.start) hps.start]
  rfl

lemma Productions.Proper.meet_start {ps : Productions} {target : SymbolId} (hps : ps.Proper target)
    (closure : List (SymbolId × TerminalSet)) :
    State.meet ps.basis ps.basis.startKernel closure =
      raise closure (target, .singleton SymbolId.eoi) := by
  have hrest : ps.rest (ps.basis.dotted (ps.basis.key 0 0)) = [.nonterminal target] :=
    (ps.remaining_eq_rest _).symm.trans hps.remaining_start
  have hahead : (FirstSets.compute ps).ahead [] (.singleton SymbolId.eoi) =
      .singleton SymbolId.eoi :=
    TerminalSet.ext_mem fun t => by simp [FirstSets.mem_ahead, FirstSets.ofParts]
  have hdemand : ps.basis.demand? ⟨ps.basis.key 0 0, .singleton SymbolId.eoi⟩ =
      some (target, .singleton SymbolId.eoi) :=
    demand?_eq_some_iff.mpr ⟨[], hrest, hahead⟩
  rw [State.meet, Basis.startKernel, List.filterMap_cons_some hdemand]
  rfl

namespace Productions.IsFragment

variable {ps ps' : Productions} {target : SymbolId} {π : Nat → Nat} {kept : Set Production}
  {below : Set SymbolId} {closure : List (SymbolId × TerminalSet)} {st : State}
  (hf : ps.IsFragment ps' target π kept below) (hk : ps.KeysFit) (hk' : ps'.KeysFit)

include hf

lemma start_notMem : ps.width ∉ below := fun h => Nat.lt_irrefl _ (hf.below_lt _ h)

/-- The first item of the grammar stands where that of the start symbol does. -/
lemma openings_start : ps'.basis.openings ps.width (.singleton SymbolId.eoi) =
    ps.basis.startKernel.map (Item.rekey (ps.basis.placeKey ps' π)) := by
  have hdotted := ps.basis.dotted_start
  simp only [Basis.dotted, Dotted.start, Dotted.mk.injEq] at hdotted
  have hplace : ps.basis.placeKey ps' π (ps.basis.key 0 0) = ps'.basis.key 1 0 := by
    rw [Basis.placeKey, hdotted.1, hdotted.2, hf.place_zero]
  rw [Basis.openings, basis_productions, hf.range_start, Basis.startKernel, List.map_singleton,
    List.map_singleton, Item.rekey, hplace]

lemma startKernel_mem : ∀ item ∈ ps.basis.startKernel, item.key ∈ ps.keptKeys kept 0 := by
  refine List.forall_mem_singleton.mpr ?_
  show ps.basis.dotted (ps.basis.key 0 0) ∈ ps.keptItems kept 0
  rw [Basis.dotted_start]
  exact ⟨⟨_, hf.proper.start, hf.start _ hf.proper.start, Nat.zero_le _⟩, fun _ => Nat.zero_le _⟩

include hk hk'

/-- A round over the start state of the fragment does what it does in the grammar. -/
lemma sweep_start (hclosure : ∀ x ∈ closure, x.1 ∈ below) :
    State.sweep ps'.basis (ps'.width + 1) 0 ((ps.width, .singleton SymbolId.eoi) :: closure) =
      (ps.width, .singleton SymbolId.eoi) :: State.sweep ps.basis (ps.width + 1) 0
        (State.meet ps.basis ps.basis.startKernel closure) := by
  have hm := hf.mirrors hk hk' 0
  have hkeys := hf.startKernel_mem
  rw [State.sweep]
  show State.sweep ps'.basis ps'.width 1 (State.meet ps'.basis (ps'.basis.openings ps.width
    (.singleton SymbolId.eoi)) ((ps.width, .singleton SymbolId.eoi) :: closure)) = _
  rw [hf.openings_start, hm.meet_cons hf.start_notMem hkeys hclosure, hf.width]
  exact hm.sweep_cons hf.start_notMem _ 0 (hm.meet hkeys hclosure).2

/-- A round of the closure behind the start symbol is one of the start state of the grammar. -/
lemma spread_start (st : State) (hkernel : st.kernel = ps.basis.startKernel)
    (hclosure : ∀ x ∈ st.closure, x.1 ∈ below) {closure : List (SymbolId × TerminalSet)}
    (hmeet : State.meet ps'.basis ps'.basis.startKernel closure =
      (ps.width, .singleton SymbolId.eoi) :: st.closure) :
    State.spread ps'.basis ⟨ps'.basis.startKernel, closure, []⟩ =
        (st.spread ps.basis).front ps'.basis ps.width [] ∧
      (st.spread ps.basis).kernel = ps.basis.startKernel ∧
        ∀ x ∈ (st.spread ps.basis).closure, x.1 ∈ below := by
  have hm := hf.mirrors hk hk' 0
  refine ⟨?_, hkernel, ?_⟩
  · rw [State.spread, hmeet, basis_productions, hf.sweep_start hk hk' hclosure, State.front,
      State.spread, hkernel]
    rfl
  · rw [State.spread, hkernel]
    exact (hm.sweep _ 0 (hm.meet hf.startKernel_mem hclosure).2).2

/-- The closure of the start state is completed behind the start symbol. -/
lemma close_start : (State.ofKernel ps'.basis.startKernel).close ps'.basis =
      ((State.ofKernel ps.basis.startKernel).close ps.basis).front ps'.basis ps.width [] ∧
    ((State.ofKernel ps.basis.startKernel).close ps.basis).Within (ps.keptKeys kept 0) below := by
  -- the first round puts the start symbol in front, the others find it there
  have hfirst := hf.spread_start hk hk' (.ofKernel ps.basis.startKernel) rfl
    (fun _ h => absurd h List.not_mem_nil) (hf.fragment_proper.meet_start [])
  have hunion : (TerminalSet.singleton SymbolId.eoi).union (.singleton SymbolId.eoi) =
      .singleton SymbolId.eoi := TerminalSet.ext_mem fun t => by simp
  have hnext : ∀ st : State, st.kernel = ps.basis.startKernel ∧ (∀ x ∈ st.closure, x.1 ∈ below) →
      State.spread ps'.basis (st.front ps'.basis ps.width []) =
          (st.spread ps.basis).front ps'.basis ps.width [] ∧
        (st.spread ps.basis).kernel = ps.basis.startKernel ∧
          ∀ x ∈ (st.spread ps.basis).closure, x.1 ∈ below := by
    refine fun st hst => hf.spread_start hk hk' st hst.1 hst.2 ?_
    rw [hf.fragment_proper.meet_start, raise, if_pos rfl, hunion]
  have hmap := untilStable_map hnext (fun st _ heq => ?_) ((ps'.width + 1) * (ps'.width + 1))
    hfirst.2
  · have hmore : untilStable (State.spread ps.basis) ((ps'.width + 1) * (ps'.width + 1))
        ((State.ofKernel ps.basis.startKernel).spread ps.basis) =
        (State.ofKernel ps.basis.startKernel).close ps.basis := by
      rw [← untilStable_succ]
      have hle : ps.width ≤ ps'.width := hf.width ▸ Nat.le_succ _
      refine untilStable_of_le (Nat.succ_le_succ
        (Nat.mul_le_mul (Nat.succ_le_succ hle) (Nat.succ_le_succ hle))) ?_
      exact State.spread_close hf.proper (((Discovery.working_initial ps).sound.justified _
        (List.mem_singleton_self _)).tidy hf.proper)
    rw [hmore] at hmap
    obtain ⟨hclose, hkernel, hclosure⟩ := hmap
    refine ⟨?_, fun item hitem => ?_, hclosure⟩
    · rw [State.close, basis_productions, untilStable_succ, State.ofKernel, hfirst.1]
      exact hclose
    · rw [hkernel] at hitem
      exact hf.startKernel_mem item hitem
  · have hclosure := congrArg State.closure heq
    exact congrArg (fun closure => { st with closure }) (List.cons.inj hclosure).2

lemma items_front (hst : st.Within (ps.keptKeys kept 0) below)
    (hkernel : st.kernel = ps.basis.startKernel) (transitions : List (Part × StateId)) :
    (st.front ps'.basis ps.width transitions).items ps'.basis =
      ⟨ps'.basis.key 0 0, .singleton SymbolId.eoi⟩ ::
        (st.items ps.basis).map (Item.rekey (ps.basis.placeKey ps' π)) := by
  rw [← ((hf.mirrors hk hk' 0).items id hst).1, State.items, State.items, State.front,
    List.flatMap_cons, hf.openings_start]
  rw [State.relabel, hkernel]
  rfl

omit hk hk' in
/-- The start symbol stands after no dot of the grammar. -/
lemma head?_remaining_ne (key : Nat) :
    (ps.basis.remaining key).head? ≠ some (.nonterminal ps.width) := by
  intro hhead
  obtain ⟨β, hrest⟩ := List.head?_eq_some_iff.mp hhead
  rw [remaining_eq_rest] at hrest
  exact absurd (hf.proper.symbol_lt_of_rest hrest).1 (Nat.lt_irrefl _)

/-- The state entered over the start symbol is found first. -/
lemma successors_front (hst : st.Within (ps.keptKeys kept 0) below)
    (hkernel : st.kernel = ps.basis.startKernel) (transitions : List (Part × StateId)) :
    (st.front ps'.basis ps.width transitions).successors ps'.basis =
      (.nonterminal ps.width, [⟨ps'.basis.key 0 1, .singleton SymbolId.eoi⟩]) ::
        (st.successors ps.basis).map (rekeyMove (ps.basis.placeKey ps' π)) := by
  have hm := hf.mirrors hk hk' 0
  obtain ⟨hitems, hkeys⟩ := hm.items id hst
  have hdotted := ps'.basis.dotted_start
  simp only [Basis.dotted, Dotted.start, Dotted.mk.injEq] at hdotted
  have hremaining := hf.fragment_proper.remaining_start
  have hgroup : State.group ps'.basis [] ⟨ps'.basis.key 0 0, .singleton SymbolId.eoi⟩ =
      [(.nonterminal ps.width, [⟨ps'.basis.key 0 1, .singleton SymbolId.eoi⟩])] := by
    simp only [State.group, hremaining, State.addToGroup, Basis.advance, hdotted]
  -- the other items add nothing to the first group
  have hrest : ∀ (l : List Item) (group : Part × List Item) (groups : List (Part × List Item)),
      group.1 = .nonterminal ps.width → (∀ item ∈ l, item.key ∈ ps.keptKeys kept 0) →
      (l.map (Item.rekey (ps.basis.placeKey ps' π))).foldl (State.group ps'.basis)
          (group :: groups) =
        group :: (l.map (Item.rekey (ps.basis.placeKey ps' π))).foldl (State.group ps'.basis)
          groups := by
    intro l group groups hgroup hl
    induction l generalizing groups with
    | nil => rfl
    | cons item l ih =>
      obtain ⟨hitem, hl⟩ := List.forall_mem_cons.mp hl
      have hne := hf.head?_remaining_ne item.key
      have hcons : State.group ps'.basis (group :: groups)
          (item.rekey (ps.basis.placeKey ps' π)) =
          group :: State.group ps'.basis groups (item.rekey (ps.basis.placeKey ps' π)) := by
        have hkey : (item.rekey (ps.basis.placeKey ps' π)).key =
            ps.basis.placeKey ps' π item.key := rfl
        rw [State.group, State.group, hkey, hm.remaining _ hitem]
        cases hremaining : ps.basis.remaining item.key with
        | nil => rfl
        | cons part β =>
          have hpart : group.1 ≠ part := by
            rw [hgroup]
            rintro rfl
            exact hne (by rw [hremaining]; rfl)
          show State.addToGroup (group :: groups) part _ = group :: State.addToGroup groups part _
          rw [State.addToGroup, if_neg hpart]
      rw [List.map_cons, List.foldl_cons, List.foldl_cons, hcons, ih _ hl]
  rw [← (hm.successors id hst).1, State.successors_eq, State.successors_eq, hitems,
    hf.items_front hk hk' hst hkernel, List.foldl_cons, hgroup, hrest _ _ _ rfl hkeys]
  rfl

end Productions.IsFragment

/-! ## The first visits -/

/-- What is queued already has no part in entering a kernel. -/
lemma Discovery.enter_queue (states : List State) (before queue : List StateId)
    (kernel : List Item) : Discovery.enter ⟨states, before ++ queue⟩ kernel =
      ((Discovery.enter ⟨states, queue⟩ kernel).1,
        ⟨(Discovery.enter ⟨states, queue⟩ kernel).2.states,
          before ++ (Discovery.enter ⟨states, queue⟩ kernel).2.queue⟩) := by
  simp only [Discovery.enter]
  split
  · simp only [List.append_assoc]
  · split
    · rfl
    · simp only [List.append_assoc]

/-- The start state of the fragment with the transitions that it has in the end: the one over the
start symbol comes first. -/
def State.fronted (b : Basis) (start : SymbolId) (st : State) : State :=
  st.front b start ((.nonterminal start, 1) :: (st.relabel id (· + 1)).transitions)

/-- Recording a transition over another part keeps the one over the start symbol in front. -/
lemma State.setTarget_fronted (b : Basis) {start : SymbolId} {st : State} {part : Part}
    (hpart : part ≠ .nonterminal start) (dest : StateId) :
    (st.fronted b start).setTarget part (dest + 1) = (st.setTarget part dest).fronted b start := by
  have hcons : ∀ transitions : List (Part × StateId),
      (st.front b start ((.nonterminal start, 1) :: transitions)).setTarget part (dest + 1) =
        st.front b start ((.nonterminal start, 1) ::
          (State.setTarget ⟨[], [], transitions⟩ part (dest + 1)).transitions) := by
    intro transitions
    simp only [setTarget, front, List.any_cons, beq_eq_false_iff_ne.mpr hpart.symm, Bool.false_or]
    split
    · rw [List.map_cons, if_neg hpart.symm]
    · rfl
  have hrelabel := State.setTarget_relabel id (· + 1) st part dest
  rw [fronted, hcons, fronted, ← hrelabel]
  rfl

/-- The state entered over the start symbol. -/
def Basis.startState (b : Basis) : State :=
  .ofKernel [⟨b.key 0 1, .singleton SymbolId.eoi⟩]

namespace Productions.IsFragment

variable {ps ps' : Productions} {target : SymbolId} {π : Nat → Nat} {kept : Set Production}
  {below : Set SymbolId} {st : State} {d d' : Discovery}
  (hf : ps.IsFragment ps' target π kept below) (hk : ps.KeysFit) (hk' : ps'.KeysFit)

/-- The start state was visited in both discoveries, but not the state over the start symbol. -/
structure Begun (ps ps' : Productions) (π : Nat → Nat) (kept : Set Production)
    (below : Set SymbolId) (st : State) (d d' : Discovery) : Prop where
  kernel : st.kernel = ps.basis.startKernel
  within : st.Within (ps.keptKeys kept 0) below
  queue : d'.queue = 1 :: d.queue.map (· + 1)
  mirrored : Discovery.Mirrored (ps.basis.placeKey ps' π) (· + 1) (ps.keptKeys kept 1) below [st]
    [st.fronted ps'.basis ps.width, ps'.basis.startState] d ⟨d'.states, d.queue.map (· + 1)⟩

include hf

lemma place_pos (p : Nat) : 0 < π p := by
  rcases Nat.eq_zero_or_pos p with rfl | hpos
  · rw [hf.place_zero]
    exact Nat.one_pos
  · exact Nat.zero_lt_of_lt (hf.place_lt hf.proper.start (hf.start _ hf.proper.start) hpos)

include hk'

lemma dotted_startState : ps'.basis.dotted (ps'.basis.key 0 1) = ⟨0, 1⟩ :=
  dotted_key (i := ⟨0, 1⟩) hk' ⟨_, hf.fragment_proper.start, Nat.le_refl 1⟩

lemma remaining_startState : ps'.basis.remaining (ps'.basis.key 0 1) = [] := by
  rw [remaining_eq_rest, hf.dotted_startState hk', rest_eq (i := ⟨0, 1⟩) hf.fragment_proper.start]
  rfl

include hk

/-- The first states are met no more. -/
lemma apart (hkernel : st.kernel = ps.basis.startKernel) :
    Discovery.Apart (ps.basis.placeKey ps' π) (· + 1) (ps.keptKeys kept 1) [st]
      [st.fronted ps'.basis ps.width, ps'.basis.startState] where
  number := fun i => Nat.add_right_comm 1 i 1
  core := by
    refine List.forall_mem_singleton.mpr ⟨ps.basis.key 0 0, ?_, fun hmem => ?_⟩
    · rw [State.core, hkernel]
      exact List.mem_singleton_self _
    · have hdot := (ps.basis.dotted_start ▸ hmem : Dotted.start ∈ ps.keptItems kept 1).2 rfl
      exact absurd hdot (by decide)
  core' := by
    -- in the place of an item there is none of the first production
    have hnot : ∀ key, (ps'.basis.dotted key).production = 0 →
        key ∉ ps.basis.placeKey ps' π '' ps.keptKeys kept 1 := by
      rintro _ h0 ⟨key, hkey, rfl⟩
      rw [(hf.placed hk hk' 1).dotted_placeKey hkey] at h0
      exact absurd h0 (Nat.ne_of_gt (hf.place_pos _))
    refine List.forall_mem_cons.mpr ⟨⟨ps'.basis.key 0 0, List.mem_singleton_self _, hnot _ ?_⟩,
      List.forall_mem_singleton.mpr ⟨ps'.basis.key 0 1, List.mem_singleton_self _, hnot _ ?_⟩⟩
    · rw [Basis.dotted_start]
      rfl
    · rw [hf.dotted_startState hk']

/-- A transition from the start state is followed in both discoveries. -/
lemma Begun.follow (h : Begun ps ps' π kept below st d d') {move : Part × List Item}
    (hmove : ∀ item ∈ move.2, item.key ∈ ps.keptKeys kept 1)
    (hpart : move.1 ≠ .nonterminal ps.width) :
    ∃ st, Begun ps ps' π kept below st (d.follow 0 move)
      (d'.follow 0 (rekeyMove (ps.basis.placeKey ps' π) move)) := by
  obtain ⟨hkernel, hwithin, hqueue, hmirrored⟩ := h
  obtain ⟨states', queue'⟩ := d'
  cases hqueue
  obtain ⟨hdest, ⟨states, hd, hd', hstates⟩, hqueue, hqueued⟩ :=
    hmirrored.enter (hf.mirrors hk hk' 1).strictMono (hf.apart hk hk' hkernel) hmove
  have hfollow : d.follow 0 move =
      ⟨st.setTarget move.1 (d.enter move.2).1 :: states, (d.enter move.2).2.queue⟩ := by
    simp only [Discovery.follow, hd, List.singleton_append, List.modify_zero_cons]
  have hfollow' : Discovery.follow 0 ⟨states', 1 :: d.queue.map (· + 1)⟩
      (rekeyMove (ps.basis.placeKey ps' π) move) =
      ⟨(st.setTarget move.1 (d.enter move.2).1).fronted ps'.basis ps.width ::
        ps'.basis.startState :: states.map (State.relabel (ps.basis.placeKey ps' π) (· + 1)),
        1 :: (d.enter move.2).2.queue.map (· + 1)⟩ := by
    have henter := Discovery.enter_queue states' [1] (d.queue.map (· + 1))
      (move.2.map (Item.rekey (ps.basis.placeKey ps' π)))
    rw [List.singleton_append] at henter
    simp only [Discovery.follow, rekeyMove, henter, hdest, hd', hqueue, List.cons_append,
      List.nil_append, List.modify_zero_cons, State.setTarget_fronted _ hpart]
  rw [hfollow, hfollow']
  exact ⟨st.setTarget move.1 (d.enter move.2).1, hkernel, ⟨hwithin.kernel, hwithin.closure⟩, rfl,
    ⟨states, rfl, rfl, hstates⟩, rfl, hqueued⟩

lemma Begun.foldl_follow {moves : List (Part × List Item)} (h : Begun ps ps' π kept below st d d')
    (hmoves : ∀ move ∈ moves, (∀ item ∈ move.2, item.key ∈ ps.keptKeys kept 1) ∧
      move.1 ≠ .nonterminal ps.width) :
    ∃ st, Begun ps ps' π kept below st (moves.foldl (Discovery.follow 0) d)
      ((moves.map (rekeyMove (ps.basis.placeKey ps' π))).foldl (Discovery.follow 0) d') := by
  induction moves generalizing st d d' with
  | nil => exact ⟨st, h⟩
  | cons move moves ih =>
    obtain ⟨⟨hmove, hpart⟩, hmoves⟩ := List.forall_mem_cons.mp hmoves
    obtain ⟨st', h'⟩ := h.follow hf hk hk' hmove hpart
    exact ih h' hmoves

/-- Moving the dot of an item leads to an item with its dot not in front. -/
lemma key_mem_of_successors (hst : st.Within (ps.keptKeys kept 0) below) :
    ∀ move ∈ st.successors ps.basis, (∀ item ∈ move.2, item.key ∈ ps.keptKeys kept 1) ∧
      move.1 ≠ .nonterminal ps.width := by
  rintro ⟨part, kernel⟩ hmove
  obtain ⟨hne, rfl⟩ := State.mem_successors.mp hmove
  have hshifted : ∀ item ∈ State.shifted ps.basis (st.items ps.basis) part,
      item.key ∈ ps.keptKeys kept 1 ∧ part ≠ .nonterminal ps.width := by
    intro item hitem
    obtain ⟨item', hitem', hadvance⟩ := List.mem_filterMap.mp hitem
    split at hadvance
    · next hhead =>
      cases hadvance
      have hkey := ((hf.mirrors hk hk' 0).items id hst).2 item' hitem'
      obtain ⟨β, hrest⟩ := List.head?_eq_some_iff.mp hhead
      rw [remaining_eq_rest] at hrest
      obtain ⟨prod, hp, hpart, -⟩ := exists_production_of_rest hrest
      have hmoved := (hf.placed hk hk' 0).moves _ hkey prod hp
        (List.getElem?_eq_some_iff.mp hpart).1
      refine ⟨?_, fun heq => hf.head?_remaining_ne item'.key (heq ▸ hhead)⟩
      show ps.basis.dotted (ps.basis.advance item').key ∈ ps.keptItems kept 1
      rw [dotted_advance hk hrest]
      exact ⟨hmoved.1, fun _ => Nat.succ_le_succ (Nat.zero_le _)⟩
    · cases hadvance
  obtain ⟨item, hitem⟩ := List.exists_mem_of_ne_nil _ hne
  exact ⟨fun item hitem => (hshifted item ((Item.perm_sort _).mem_iff.mp hitem)).1,
    (hshifted item hitem).2⟩

/-- The first visits, which are those of the start states. -/
lemma begun_visit : ∃ st, Begun ps ps' π kept below st
    (Discovery.visit ps.basis ⟨[.ofKernel ps.basis.startKernel], []⟩ 0)
    (Discovery.visit ps'.basis ⟨[.ofKernel ps'.basis.startKernel], []⟩ 0) := by
  obtain ⟨hclose, hwithin⟩ := hf.close_start hk hk'
  have hkernel := State.kernel_close ps.basis (.ofKernel ps.basis.startKernel)
  have htransitions := State.transitions_close ps.basis (.ofKernel ps.basis.startKernel)
  have hmoves := hf.key_mem_of_successors hk hk' hwithin
  have hsuccessors := hf.successors_front hk hk' hwithin hkernel []
  have hvisit : ∀ (b : Basis) (st : State), Discovery.visit b ⟨[st], []⟩ 0 =
      ((st.close b).successors b).foldl (Discovery.follow 0) ⟨[st.close b], []⟩ := fun b st => rfl
  rw [hvisit, hvisit, hclose, hsuccessors, List.foldl_cons]
  generalize (State.ofKernel ps.basis.startKernel).close ps.basis = st at *
  have hfirst : Discovery.follow 0 ⟨[st.front ps'.basis ps.width []], []⟩
      (.nonterminal ps.width, [⟨ps'.basis.key 0 1, .singleton SymbolId.eoi⟩]) =
      ⟨[st.fronted ps'.basis ps.width, ps'.basis.startState], [1]⟩ := by
    have hne : ps'.basis.key 0 0 ≠ ps'.basis.key 0 1 := by
      intro heq
      have hdotted := congrArg ps'.basis.dotted heq
      rw [Basis.dotted_start, hf.dotted_startState hk'] at hdotted
      cases hdotted
    have hnone : ([st.front ps'.basis ps.width []].findIdx? fun st => st.core ==
        [Item.mk (ps'.basis.key 0 1) (.singleton SymbolId.eoi)].map Item.key) = none := by
      simp [State.front, State.core, Basis.startKernel, hne]
    have hst : st.transitions = [] := htransitions
    simp only [Discovery.follow, Discovery.enter, hnone, State.fronted, State.relabel, hst]
    rfl
  rw [hfirst]
  exact Begun.foldl_follow hf hk hk' ⟨hkernel, hwithin, rfl,
    ⟨[], rfl, rfl, fun _ h => absurd h List.not_mem_nil⟩, rfl, fun _ h => absurd h List.not_mem_nil⟩
    hmoves

omit hk in
/-- The state entered over the start symbol leads nowhere. -/
lemma visit_startState {states : List State} {queue : List StateId}
    (hstate : states[1]? = some ps'.basis.startState) :
    Discovery.visit ps'.basis ⟨states, queue⟩ 1 = ⟨states, queue⟩ := by
  have hremaining := hf.remaining_startState hk'
  have hdemand : ∀ set, ps'.basis.demand? ⟨ps'.basis.key 0 1, set⟩ = none := fun set => by
    simp only [Basis.demand?, hremaining]
  have hmeet : State.meet ps'.basis ps'.basis.startState.kernel [] = [] := by
    simp only [State.meet, Basis.startState, State.ofKernel, List.filterMap_cons, hdemand,
      List.filterMap_nil, List.foldl_nil]
  have hspread : State.spread ps'.basis ps'.basis.startState = ps'.basis.startState :=
    congrArg (fun closure => { ps'.basis.startState with closure })
      (congrArg (State.sweep ps'.basis (ps'.width + 1) 0) hmeet)
  have hclose : ps'.basis.startState.close ps'.basis = ps'.basis.startState := if_pos hspread
  have hsuccessors : ps'.basis.startState.successors ps'.basis = [] := by
    simp [State.successors, State.items, Basis.startState, State.ofKernel, hremaining]
  simp only [Discovery.visit, hstate, hclose, hsuccessors, List.foldl_nil]
  obtain ⟨hlt, hget⟩ := List.getElem?_eq_some_iff.mp hstate
  rw [← hget, List.set_getElem_self]

/-- The states of a fragment are those of the grammar, under other keys, and one more. -/
theorem states_eq : ∃ st states, ps.basis.automaton.states = st :: states ∧
    ps'.basis.automaton.states = st.fronted ps'.basis ps.width :: ps'.basis.startState ::
      states.map (State.relabel (ps.basis.placeKey ps' π) (· + 1)) ∧
    st.kernel = ps.basis.startKernel ∧ st.Within (ps.keptKeys kept 0) below ∧
      ∀ st ∈ states, st.Within (ps.keptKeys kept 1) below := by
  have hdone := (Discovery.run_initial hf.proper hk).2
  have hdone' := (Discovery.run_initial hf.fragment_proper hk').2
  have hworking : Discovery.Working ps
      (Discovery.visit ps.basis ⟨[.ofKernel ps.basis.startKernel], []⟩ 0) :=
    ((Discovery.working_initial ps).visit hf.proper hk rfl).1
  obtain ⟨st, hkernel, hwithin, hqueue, hmirrored⟩ := hf.begun_visit hk hk'
  -- after the first visits, one more in the fragment, both discoveries go on alike
  obtain ⟨n, hn⟩ : ∃ n, ps.basis.visitBound = n + 1 := ⟨_, rfl⟩
  obtain ⟨n', hn'⟩ : ∃ n', ps'.basis.visitBound = n' + 2 :=
    Nat.exists_eq_add_of_le' (Nat.succ_le_succ (Nat.mul_pos (Nat.two_pow_pos _) (Nat.succ_pos _)))
  have hrun : Discovery.run ps.basis ps.basis.visitBound (.initial ps.basis) =
      Discovery.run ps.basis n
        (Discovery.visit ps.basis ⟨[.ofKernel ps.basis.startKernel], []⟩ 0) := by
    rw [hn]
    rfl
  have hrun' : Discovery.run ps'.basis ps'.basis.visitBound (.initial ps'.basis) =
      Discovery.run ps'.basis (n' + 1)
        (Discovery.visit ps'.basis ⟨[.ofKernel ps'.basis.startKernel], []⟩ 0) := by
    rw [hn']
    rfl
  have hstates : ps.basis.automaton.states =
      (Discovery.run ps.basis ps.basis.visitBound (.initial ps.basis)).states := rfl
  have hstates' : ps'.basis.automaton.states =
      (Discovery.run ps'.basis ps'.basis.visitBound (.initial ps'.basis)).states := rfl
  rw [hrun] at hdone hstates
  rw [hrun'] at hdone' hstates'
  rw [hstates, hstates']
  generalize Discovery.visit ps.basis ⟨[.ofKernel ps.basis.startKernel], []⟩ 0 = d at *
  generalize Discovery.visit ps'.basis ⟨[.ofKernel ps'.basis.startKernel], []⟩ 0 = d' at *
  obtain ⟨states', queue'⟩ := d'
  cases hqueue
  have hsecond : Discovery.run ps'.basis (n' + 1) ⟨states', 1 :: d.queue.map (· + 1)⟩ =
      Discovery.run ps'.basis n' ⟨states', d.queue.map (· + 1)⟩ := by
    obtain ⟨states, -, hd', -⟩ := hmirrored.states
    rw [Discovery.run]
    show Discovery.run ps'.basis n' (Discovery.visit ps'.basis ⟨states', _⟩ 1) = _
    rw [hf.visit_startState hk' ((congrArg (·[1]?) hd').trans rfl)]
  rw [hsecond] at hdone' ⊢
  have hclose : ∀ d : Discovery, d.Working ps → ∀ st ∈ d.states,
      st.Within (ps.keptKeys kept 1) below →
        (st.relabel (ps.basis.placeKey ps' π) (· + 1)).close ps'.basis =
          (st.close ps.basis).relabel (ps.basis.placeKey ps' π) (· + 1) ∧
        (st.close ps.basis).Within (ps.keptKeys kept 1) below := by
    intro d hd st hst hwithin
    exact (hf.mirrors hk hk' 1).close_succ hf.proper hf.width _ hwithin
      ((hd.sound.justified st hst).tidy hf.proper)
  have hmirrored := hmirrored.run (hf.mirrors hk hk' 1) (hf.apart hk hk' hkernel)
    (fun d i queue hd hqueue => (hd.visit hf.proper hk hqueue).1) hclose hworking (max n n')
  rw [Discovery.run_of_le (Nat.le_max_left n n') hdone,
    Discovery.run_of_le (Nat.le_max_right n n') hdone'] at hmirrored
  obtain ⟨states, hd, hd', hstates⟩ := hmirrored.states
  exact ⟨st, states, hd, hd', hkernel, hwithin, hstates⟩

end Productions.IsFragment

end ShiftReduce
