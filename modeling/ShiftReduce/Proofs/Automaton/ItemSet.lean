import ShiftReduce.Proofs.Automaton.FirstSet
import Mathlib.Data.Set.Insert
/-!
# Item sets

The automaton as the theory of LR parsing has it, for any productions of which number 0 is
`^ → target`.

An LR(0) item is a production with a dot. A set of them is closed by adding, where a dot stands
before a non-terminal, the beginnings of its productions; over a part one goes from a set to the
items with the dot moved over that part. The kernels of the automaton are what is reached in this
way from `^ → . target`.

In an LR(1) item set every item has a set of lookaheads. An item `A → α . B β` with lookaheads `K`
gives to the beginnings of `B` the terminals that can begin `β`, and `K` too if `β` can vanish. An
item without lookaheads stays in the set, as it stays in a state. The LALR lookaheads of an item
over a kernel are those it has in any of the canonical LR(1) item sets with the closure of that
kernel as core.
-/

namespace ShiftReduce

/-- An LR(0) item: the number of a production and the number of parts before the dot. -/
structure Dotted where
  production : Nat
  dot : Nat
  deriving DecidableEq

namespace Dotted

/-- The item `^ → . target`. -/
def start : Dotted := ⟨0, 0⟩

/-- The item with the dot moved over one part. -/
def advance (i : Dotted) : Dotted := ⟨i.production, i.dot + 1⟩

lemma advance_injective : Function.Injective advance := by
  rintro ⟨p, d⟩ ⟨p', d'⟩ h
  simpa [advance] using h

end Dotted

/-- LR(0) items, each with its lookaheads. -/
structure ItemSet where
  core : Set Dotted
  lookaheads : Dotted → Set SymbolId

namespace Productions

variable (ps : Productions)

/-! ## LR(0) -/

/-- The parts after the dot. -/
def rest (i : Dotted) : List Part :=
  (((ps.get? i.production).map Production.rhs).getD []).drop i.dot

/-- The item is a production of the grammar with a dot in it. -/
def IsDotted (i : Dotted) : Prop :=
  ∃ prod, ps.get? i.production = some prod ∧ i.dot ≤ prod.rhs.length

/-- The item begins a production of the symbol. -/
def Opening (s : SymbolId) (i : Dotted) : Prop :=
  i.dot = 0 ∧ ∃ prod, ps.get? i.production = some prod ∧ prod.lhs = s

/-- The items of the closure of a set. -/
inductive Closure (K : Set Dotted) : Dotted → Prop
  | kernel {i : Dotted} : i ∈ K → Closure K i
  | opening {i j : Dotted} {s : SymbolId} {β : List Part} : Closure K i →
      ps.rest i = .nonterminal s :: β → ps.Opening s j → Closure K j

/-- The closure of a set of items. -/
def closure (K : Set Dotted) : Set Dotted := {i | ps.Closure K i}

/-- The items of a set that have the part after the dot, with the dot moved over it. -/
def goto (I : Set Dotted) (part : Part) : Set Dotted :=
  {j | ∃ i ∈ I, ∃ β, ps.rest i = part :: β ∧ i.advance = j}

/-- The kernels reached from `^ → . target`. -/
inductive ReachableKernel : Set Dotted → Prop
  | start : ReachableKernel {Dotted.start}
  | goto {K : Set Dotted} {part : Part} : ReachableKernel K →
      (ps.goto (ps.closure K) part).Nonempty → ReachableKernel (ps.goto (ps.closure K) part)

/-! ## LR(1) -/

/-- The lookaheads in the closure of an item set. -/
inductive Lookahead (I : ItemSet) : Dotted → SymbolId → Prop
  | kernel {i : Dotted} {t : SymbolId} : i ∈ I.core → t ∈ I.lookaheads i → Lookahead I i t
  | ahead {i j : Dotted} {s t : SymbolId} {β : List Part} : i ∈ ps.closure I.core →
      ps.rest i = .nonterminal s :: β → ps.Opening s j → ps.Begins β t → Lookahead I j t
  | inherited {i j : Dotted} {s t : SymbolId} {β : List Part} : Lookahead I i t →
      ps.rest i = .nonterminal s :: β → ps.Opening s j → ps.Nullable β → Lookahead I j t

/-- The closure of an item set. -/
def closeSet (I : ItemSet) : ItemSet := ⟨ps.closure I.core, fun i => {t | ps.Lookahead I i t}⟩

/-- The item set entered over a part, before its closure. -/
def gotoSet (I : ItemSet) (part : Part) : ItemSet :=
  ⟨ps.goto I.core part,
    fun j => {t | ∃ i ∈ I.core, ∃ β, ps.rest i = part :: β ∧ i.advance = j ∧ t ∈ I.lookaheads i}⟩

/-- The item `^ → . target` with the end of input as its lookahead. -/
def startSet : ItemSet := ⟨{Dotted.start}, fun i => {t | i = Dotted.start ∧ t = SymbolId.eoi}⟩

/-- The canonical collection of LR(1) item sets. -/
inductive Canonical : ItemSet → Prop
  | start : Canonical (ps.closeSet startSet)
  | goto {I : ItemSet} {part : Part} : Canonical I → (ps.gotoSet I part).core.Nonempty →
      Canonical (ps.closeSet (ps.gotoSet I part))

/-- The terminal is a lookahead of the item in a canonical item set whose core is the closure of
the kernel. -/
def Lalr (K : Set Dotted) (i : Dotted) (t : SymbolId) : Prop :=
  ∃ I, ps.Canonical I ∧ I.core = ps.closure K ∧ t ∈ I.lookaheads i

variable {ps} {K K' : Set Dotted} {i j : Dotted} {part : Part} {s t target : SymbolId}
  {β : List Part}

/-! ## Items -/

lemma rest_eq {prod : Production} (h : ps.get? i.production = some prod) :
    ps.rest i = prod.rhs.drop i.dot := by
  simp [rest, h]

lemma exists_production_of_rest (h : ps.rest i = part :: β) :
    ∃ prod, ps.get? i.production = some prod ∧ prod.rhs[i.dot]? = some part ∧
      prod.rhs.drop (i.dot + 1) = β := by
  cases hp : ps.get? i.production with
  | none => simp [rest, hp] at h
  | some prod =>
    rw [rest_eq hp] at h
    refine ⟨prod, rfl, ?_, ?_⟩
    · have := congrArg List.head? h
      simpa using this
    · have := congrArg List.tail h
      simpa using this

lemma rest_advance (h : ps.rest i = part :: β) : ps.rest i.advance = β := by
  obtain ⟨prod, hp, -, hβ⟩ := exists_production_of_rest h
  rw [← hβ]
  exact rest_eq hp

lemma IsDotted.advance (h : ps.rest i = part :: β) : ps.IsDotted i.advance := by
  obtain ⟨prod, hp, hpart, -⟩ := exists_production_of_rest h
  exact ⟨prod, hp, (List.getElem?_eq_some_iff.mp hpart).1⟩

lemma Opening.isDotted (h : ps.Opening s i) : ps.IsDotted i := by
  obtain ⟨hdot, prod, hp, -⟩ := h
  exact ⟨prod, hp, by omega⟩

lemma Proper.symbol_lt_of_rest (hps : ps.Proper target) (h : ps.rest i = part :: β) :
    part.symbol < ps.width ∧ ∀ x ∈ β, x.symbol < ps.width := by
  obtain ⟨prod, hp, hpart, rfl⟩ := exists_production_of_rest h
  exact ⟨hps.symbol_lt hp part (List.mem_of_getElem? hpart),
    fun x hx => hps.symbol_lt hp x (List.mem_of_mem_drop hx)⟩

/-- The production of `^` is begun in no closure. -/
lemma Proper.opening_ne_start (hps : ps.Proper target) (h : ps.rest i = .nonterminal s :: β)
    (hj : ps.Opening s j) : j.production ≠ 0 := by
  obtain ⟨-, prod, hp, rfl⟩ := hj
  intro h0
  rw [h0, hps.start, Option.some.injEq] at hp
  have := (hps.symbol_lt_of_rest h).1
  rw [← hp] at this
  exact absurd this (lt_irrefl _)

/-! ## Kernels and their closures -/

lemma subset_closure (K : Set Dotted) : K ⊆ ps.closure K := fun _ hi => .kernel hi

lemma mem_closure_opening (hi : i ∈ ps.closure K) (h : ps.rest i = .nonterminal s :: β)
    (hj : ps.Opening s j) : j ∈ ps.closure K :=
  .opening hi h hj

/-- A part of the closure is all of it if it has the openings that it calls for. -/
lemma closure_eq_of_subset {I : Set Dotted} (hI : I ⊆ ps.closure K) (hK : K ⊆ I)
    (hopen : ∀ i ∈ I, ∀ s β, ps.rest i = .nonterminal s :: β → ∀ j, ps.Opening s j → j ∈ I) :
    ps.closure K = I := by
  refine Set.Subset.antisymm (fun i hi => ?_) hI
  induction hi with
  | kernel hi => exact hK hi
  | opening _ hrest hj ih => exact hopen _ ih _ _ hrest _ hj

/-- One item goes over a part if it is the only one before that part. -/
lemma goto_eq_singleton {I : Set Dotted} (hi : i ∈ I) (hrest : ps.rest i = part :: β)
    (honly : ∀ j ∈ I, (ps.rest j).head? = some part → j = i) : ps.goto I part = {i.advance} := by
  ext j
  rw [Set.mem_singleton_iff]
  constructor
  · rintro ⟨i', hi', β', hrest', rfl⟩
    rw [honly i' hi' (by rw [hrest', List.head?_cons])]
  · rintro rfl
    exact ⟨i, hi, β, hrest, rfl⟩

/-- What the closure adds has its dot in front and is not the production of `^`. -/
lemma Proper.mem_closure (hps : ps.Proper target) (h : i ∈ ps.closure K) :
    i ∈ K ∨ i.dot = 0 ∧ i.production ≠ 0 := by
  cases h with
  | kernel hi => exact .inl hi
  | opening _ hrest hj => exact .inr ⟨hj.1, hps.opening_ne_start hrest hj⟩

lemma ReachableKernel.start_or_moved (h : ps.ReachableKernel K) (hi : i ∈ K) :
    i = Dotted.start ∨ 0 < i.dot := by
  cases h with
  | start => exact .inl hi
  | goto _ _ =>
    obtain ⟨j, -, β, -, rfl⟩ := hi
    exact .inr (Nat.succ_pos j.dot)

lemma ReachableKernel.nonempty (h : ps.ReachableKernel K) : K.Nonempty := by
  cases h with
  | start => exact ⟨_, rfl⟩
  | goto _ hne => exact hne

lemma ReachableKernel.isDotted (hps : ps.Proper target) (h : ps.ReachableKernel K)
    (hi : i ∈ ps.closure K) : ps.IsDotted i := by
  induction hi with
  | kernel hi =>
    cases h with
    | start =>
      rw [Set.mem_singleton_iff] at hi
      subst hi
      exact ⟨_, hps.start, Nat.zero_le _⟩
    | goto _ _ =>
      obtain ⟨j, -, β, hj, rfl⟩ := hi
      exact IsDotted.advance hj
  | opening _ _ hj => exact hj.isDotted

/-- A reachable kernel can be read off its closure. -/
lemma ReachableKernel.eq_filter (hps : ps.Proper target) (h : ps.ReachableKernel K) :
    K = {i ∈ ps.closure K | i = Dotted.start ∨ 0 < i.dot} := by
  ext i
  constructor
  · exact fun hi => ⟨subset_closure K hi, h.start_or_moved hi⟩
  · rintro ⟨hi, hmoved⟩
    rcases hps.mem_closure hi with hi | ⟨hdot, hne⟩
    · exact hi
    · rcases hmoved with rfl | hpos
      · exact absurd rfl hne
      · omega

lemma ReachableKernel.eq_of_closure_eq (hps : ps.Proper target) (h : ps.ReachableKernel K)
    (h' : ps.ReachableKernel K') (heq : ps.closure K = ps.closure K') : K = K' := by
  rw [h.eq_filter hps, h'.eq_filter hps, heq]

/-! ## Canonical item sets -/

lemma Lookahead.mem_closure {I : ItemSet} (h : ps.Lookahead I i t) : i ∈ ps.closure I.core := by
  induction h with
  | kernel hi _ => exact subset_closure _ hi
  | ahead hi hrest hj _ => exact mem_closure_opening hi hrest hj
  | inherited _ hrest hj _ ih => exact mem_closure_opening ih hrest hj

namespace Canonical

variable {I : ItemSet}

lemma exists_eq_closeSet (h : ps.Canonical I) : ∃ J, I = ps.closeSet J := by
  cases h with
  | start => exact ⟨_, rfl⟩
  | goto _ _ => exact ⟨_, rfl⟩

lemma mem_core (h : ps.Canonical I) (ht : t ∈ I.lookaheads i) : i ∈ I.core := by
  obtain ⟨J, rfl⟩ := h.exists_eq_closeSet
  exact Lookahead.mem_closure ht

lemma ahead (h : ps.Canonical I) (hi : i ∈ I.core) (hrest : ps.rest i = .nonterminal s :: β)
    (hj : ps.Opening s j) (ht : ps.Begins β t) : t ∈ I.lookaheads j := by
  obtain ⟨J, rfl⟩ := h.exists_eq_closeSet
  exact .ahead hi hrest hj ht

lemma inherited (h : ps.Canonical I) (ht : t ∈ I.lookaheads i)
    (hrest : ps.rest i = .nonterminal s :: β) (hj : ps.Opening s j) (hβ : ps.Nullable β) :
    t ∈ I.lookaheads j := by
  obtain ⟨J, rfl⟩ := h.exists_eq_closeSet
  exact .inherited ht hrest hj hβ

/-- The core of a canonical item set is the closure of a reachable kernel. -/
lemma exists_kernel (h : ps.Canonical I) :
    ∃ K, ps.ReachableKernel K ∧ I.core = ps.closure K := by
  induction h with
  | start => exact ⟨_, .start, rfl⟩
  | @goto I part _ hne ih =>
    obtain ⟨K, hK, hcore⟩ := ih
    have hne : (ps.goto (ps.closure K) part).Nonempty := hcore ▸ hne
    exact ⟨_, .goto hK hne, by simp only [closeSet, gotoSet, hcore]⟩

/-- What is entered from a canonical item set is a reachable kernel. -/
lemma reachable_gotoSet (h : ps.Canonical I) (hne : (ps.gotoSet I part).core.Nonempty) :
    ps.ReachableKernel (ps.gotoSet I part).core := by
  obtain ⟨K, hK, hcore⟩ := h.exists_kernel
  have hgoto : (ps.gotoSet I part).core = ps.goto (ps.closure K) part := by rw [gotoSet, hcore]
  rw [hgoto] at hne ⊢
  exact .goto hK hne

lemma lt_width (hps : ps.Proper target) (h : ps.Canonical I) (ht : t ∈ I.lookaheads i) :
    t < ps.width := by
  have close : ∀ {J : ItemSet}, (∀ i t, i ∈ J.core → t ∈ J.lookaheads i → t < ps.width) →
      ∀ {i t}, ps.Lookahead J i t → t < ps.width := by
    intro J hJ i t h
    induction h with
    | kernel hi ht => exact hJ _ _ hi ht
    | ahead _ hrest _ ht => exact ht.lt_width hps (hps.symbol_lt_of_rest hrest).2
    | inherited _ _ _ _ ih => exact ih
  induction h generalizing i t with
  | start =>
    refine close ?_ ht
    rintro i t - ⟨-, rfl⟩
    exact hps.eoi_lt
  | goto _ _ ih =>
    refine close ?_ ht
    rintro i t - ⟨j, -, β, -, -, hj⟩
    exact ih hj

end Canonical

/-- Every reachable kernel has a canonical item set. -/
lemma ReachableKernel.exists_canonical (h : ps.ReachableKernel K) :
    ∃ I, ps.Canonical I ∧ I.core = ps.closure K := by
  induction h with
  | start => exact ⟨_, .start, rfl⟩
  | @goto K part _ hne ih =>
    obtain ⟨I, hI, hcore⟩ := ih
    have hgoto : (ps.gotoSet I part).core = ps.goto (ps.closure K) part := by
      rw [gotoSet, hcore]
    exact ⟨_, .goto hI (hgoto ▸ hne), by rw [closeSet, hgoto]⟩

/-! ## LALR lookaheads -/

namespace Lalr

lemma start : ps.Lalr {Dotted.start} Dotted.start SymbolId.eoi :=
  ⟨_, .start, rfl, .kernel rfl ⟨rfl, rfl⟩⟩

lemma ahead (hK : ps.ReachableKernel K) (hi : i ∈ ps.closure K)
    (hrest : ps.rest i = .nonterminal s :: β) (hj : ps.Opening s j) (ht : ps.Begins β t) :
    ps.Lalr K j t := by
  obtain ⟨I, hI, hcore⟩ := hK.exists_canonical
  exact ⟨I, hI, hcore, hI.ahead (hcore ▸ hi) hrest hj ht⟩

lemma inherited (h : ps.Lalr K i t) (hrest : ps.rest i = .nonterminal s :: β)
    (hj : ps.Opening s j) (hβ : ps.Nullable β) : ps.Lalr K j t := by
  obtain ⟨I, hI, hcore, ht⟩ := h
  exact ⟨I, hI, hcore, hI.inherited ht hrest hj hβ⟩

lemma goto (h : ps.Lalr K i t) (hrest : ps.rest i = part :: β) :
    ps.Lalr (ps.goto (ps.closure K) part) i.advance t := by
  obtain ⟨I, hI, hcore, ht⟩ := h
  have hi := hI.mem_core ht
  have hmem : i.advance ∈ (ps.gotoSet I part).core := ⟨i, hi, β, hrest, rfl⟩
  refine ⟨_, .goto hI ⟨_, hmem⟩, by simp only [closeSet, gotoSet, hcore], ?_⟩
  exact .kernel hmem ⟨i, hi, β, hrest, rfl, ht⟩

lemma lt_width (hps : ps.Proper target) (h : ps.Lalr K i t) : t < ps.width := by
  obtain ⟨I, hI, -, ht⟩ := h
  exact hI.lt_width hps ht

/-- The LALR lookaheads are the least ones that contain the end of input at the start and are kept
by closure and by going over a part. -/
lemma least (hps : ps.Proper target) {P : Set Dotted → Dotted → SymbolId → Prop}
    (hstart : P {Dotted.start} Dotted.start SymbolId.eoi)
    (hahead : ∀ {K i j s t β}, ps.ReachableKernel K → i ∈ ps.closure K →
      ps.rest i = .nonterminal s :: β → ps.Opening s j → ps.Begins β t → P K j t)
    (hinherited : ∀ {K i j s t β}, ps.ReachableKernel K → P K i t →
      ps.rest i = .nonterminal s :: β → ps.Opening s j → ps.Nullable β → P K j t)
    (hgoto : ∀ {K i part t β}, ps.ReachableKernel K → i ∈ ps.closure K → P K i t →
      ps.rest i = part :: β → P (ps.goto (ps.closure K) part) i.advance t)
    (hK : ps.ReachableKernel K) (h : ps.Lalr K i t) : P K i t := by
  have close : ∀ {J : ItemSet} {K : Set Dotted}, ps.ReachableKernel K → J.core = K →
      (∀ i t, t ∈ J.lookaheads i → P K i t) → ∀ {i t}, ps.Lookahead J i t → P K i t := by
    rintro J K hK rfl hJ i t h
    induction h with
    | kernel _ ht => exact hJ _ _ ht
    | ahead hi hrest hj ht => exact hahead hK hi hrest hj ht
    | inherited _ hrest hj hβ ih => exact hinherited hK ih hrest hj hβ
  obtain ⟨I, hI, hcore, ht⟩ := h
  induction hI generalizing K i t with
  | start =>
    have hKeq : {Dotted.start} = K := ReachableKernel.start.eq_of_closure_eq hps hK hcore
    subst hKeq
    refine close hK rfl ?_ ht
    rintro i t ⟨rfl, rfl⟩
    exact hstart
  | @goto I part hI hne ih =>
    -- over reachable kernels the core tells which kernel the set was entered with
    have hK' := hI.reachable_gotoSet hne
    have hKeq : (ps.gotoSet I part).core = K := hK'.eq_of_closure_eq hps hK hcore
    subst hKeq
    obtain ⟨K₀, hK₀, hcore₀⟩ := hI.exists_kernel
    refine close hK' rfl ?_ ht
    rintro i t ⟨j, hj, β, hrest, rfl, hjt⟩
    have hgotoCore : (ps.gotoSet I part).core = ps.goto (ps.closure K₀) part := by
      rw [gotoSet, hcore₀]
    rw [hgotoCore]
    exact hgoto hK₀ (hcore₀ ▸ hj) (ih hK₀ hcore₀ hjt) hrest

end Lalr

end Productions

end ShiftReduce
