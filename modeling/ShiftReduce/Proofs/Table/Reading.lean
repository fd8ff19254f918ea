import ShiftReduce.Proofs.Automaton.Discovery
import ShiftReduce.Table.Build
import Mathlib.Order.Monotone.Basic
/-!
# What is read of a basis

The construction of an automaton reads of its basis only what the items it comes upon say and how
the symbols after their dots open. So if the items of one basis stand for items of another that say
the same, and their keys are in the same order, then what is found over the two is the same but for
the keys. A table over many productions, few of which are ever come upon, can be computed over those
few; and a part of a grammar has the states that the whole one has.

The states of two discoveries may also have different numbers, if some were found first that are
not met again.

Main statements: `Basis.Mirrors.run` and `Basis.Mirrors.ofState`.
-/

namespace ShiftReduce

/-- The item under another key. -/
def Item.rekey (φ : Nat → Nat) (item : Item) : Item := ⟨φ item.key, item.lookaheads⟩

/-- The state with other keys, and other numbers for the states it leads to. -/
def State.relabel (φ : Nat → Nat) (σ : StateId → StateId) (st : State) : State :=
  ⟨st.kernel.map (Item.rekey φ), st.closure, st.transitions.map fun t => (t.1, σ t.2)⟩

/-- A kernel to enter over a part, with other keys. -/
def rekeyMove (φ : Nat → Nat) (move : Part × List Item) : Part × List Item :=
  (move.1, move.2.map (Item.rekey φ))

/-- Under other keys, in the same order, the items of one basis say in another what they say in
their own, as long as they and the symbols after their dots are from two sets, which they are not
led out of. -/
structure Basis.Mirrors (b b' : Basis) (φ : Nat → Nat) (I : Set Nat) (S : Set SymbolId) : Prop where
  strictMono : StrictMonoOn φ I
  remaining : ∀ key ∈ I, b'.remaining (φ key) = b.remaining key
  rhs : ∀ key ∈ I, (b'.production (φ key)).rhs = (b.production key).rhs
  advance : ∀ item : Item, item.key ∈ I → b.remaining item.key ≠ [] →
    b'.advance (item.rekey φ) = (b.advance item).rekey φ ∧ (b.advance item).key ∈ I
  demand : ∀ item : Item, item.key ∈ I → b'.demand? (item.rekey φ) = b.demand? item ∧
    ∀ d, b.demand? item = some d → d.1 ∈ S
  openings : ∀ s ∈ S, ∀ set, b'.openings s set = (b.openings s set).map (Item.rekey φ) ∧
    ∀ item ∈ b.openings s set, item.key ∈ I

/-- A state with no other keys in its kernel and no other symbols in its closure. -/
structure State.Within (I : Set Nat) (S : Set SymbolId) (st : State) : Prop where
  kernel : ∀ item ∈ st.kernel, item.key ∈ I
  closure : ∀ x ∈ st.closure, x.1 ∈ S

lemma untilStable_map {α β : Type} [DecidableEq α] [DecidableEq β] {f : α → α} {g : β → β}
    {m : α → β} {p : α → Prop} (h : ∀ x, p x → g (m x) = m (f x) ∧ p (f x))
    (hinj : ∀ x, p x → m (f x) = m x → f x = x) (fuel : Nat) {x : α} (hx : p x) :
    untilStable g fuel (m x) = m (untilStable f fuel x) ∧ p (untilStable f fuel x) := by
  induction fuel generalizing x with
  | zero => exact ⟨rfl, hx⟩
  | succ fuel ih =>
    obtain ⟨heq, hp⟩ := h x hx
    rw [untilStable, untilStable, heq]
    by_cases hstable : f x = x
    · rw [if_pos hstable, if_pos (congrArg m hstable)]
      exact ⟨rfl, hx⟩
    · rw [if_neg hstable, if_neg fun h => hstable (hinj x hx h)]
      exact ih hp

/-! ## Kernels under other keys -/

section Rekey

variable {φ : Nat → Nat} {I : Set Nat} (hφ : StrictMonoOn φ I) {l l' : List Item} {item : Item}

include hφ

lemma Item.insert_rekey (hitem : item.key ∈ I) (hl : ∀ item ∈ l, item.key ∈ I) :
    Item.insert (item.rekey φ) (l.map (rekey φ)) = (Item.insert item l).map (rekey φ) := by
  induction l with
  | nil => rfl
  | cons other l ih =>
    obtain ⟨hother, hl⟩ := List.forall_mem_cons.mp hl
    have hle : (item.rekey φ).key ≤ (other.rekey φ).key ↔ item.key ≤ other.key :=
      hφ.le_iff_le hitem hother
    rw [List.map_cons, Item.insert, Item.insert, ih hl]
    by_cases h : item.key ≤ other.key
    · rw [if_pos h, if_pos (hle.mpr h), List.map_cons, List.map_cons]
    · rw [if_neg h, if_neg fun h' => h (hle.mp h'), List.map_cons]

lemma Item.sort_rekey (hl : ∀ item ∈ l, item.key ∈ I) :
    Item.sort (l.map (rekey φ)) = (Item.sort l).map (rekey φ) := by
  induction l with
  | nil => rfl
  | cons item l ih =>
    obtain ⟨hitem, hl⟩ := List.forall_mem_cons.mp hl
    have hsorted : ∀ item ∈ Item.sort l, item.key ∈ I := fun item h =>
      hl item ((Item.perm_sort l).mem_iff.mp h)
    show Item.insert (item.rekey φ) (Item.sort (l.map (rekey φ))) = _
    rw [ih hl, insert_rekey hφ hitem hsorted]
    rfl

/-- Keys that differ still differ when changed. -/
lemma map_inj_of_strictMonoOn {keys keys' : List Nat} (hkeys : ∀ key ∈ keys, key ∈ I)
    (hkeys' : ∀ key ∈ keys', key ∈ I) : keys.map φ = keys'.map φ ↔ keys = keys' := by
  refine ⟨fun h => ?_, congrArg _⟩
  induction keys generalizing keys' with
  | nil => exact (List.map_eq_nil_iff.mp h.symm).symm
  | cons key keys ih =>
    cases keys' with
    | nil => cases h
    | cons key' keys' =>
      obtain ⟨hkey, hkeys⟩ := List.forall_mem_cons.mp hkeys
      obtain ⟨hkey', hkeys'⟩ := List.forall_mem_cons.mp hkeys'
      rw [List.map_cons, List.map_cons, List.cons.injEq] at h
      rw [hφ.injOn hkey hkey' h.1, ih hkeys hkeys' h.2]

end Rekey

lemma map_key_rekey (φ : Nat → Nat) (l : List Item) :
    (l.map (Item.rekey φ)).map Item.key = (l.map Item.key).map φ := by
  rw [List.map_map, List.map_map]
  rfl

namespace State

variable {φ : Nat → Nat} {σ : StateId → StateId} {I : Set Nat} {S : Set SymbolId} {st : State}
  {kernel : List Item}

lemma core_relabel (φ : Nat → Nat) (σ : StateId → StateId) (st : State) :
    (st.relabel φ σ).core = st.core.map φ := map_key_rekey φ st.kernel

lemma Within.core (h : st.Within I S) : ∀ key ∈ st.core, key ∈ I :=
  List.forall_mem_map.mpr h.kernel

/-- The keys of a merged kernel are those of the state. -/
lemma Within.merge (h : st.Within I S) (kernel : List Item) : (st.merge kernel).Within I S := by
  refine ⟨fun item hitem => ?_, h.closure⟩
  obtain ⟨j, hj, rfl⟩ := List.mem_iff_getElem.mp hitem
  simp only [State.merge, List.getElem_zipWith]
  exact h.kernel _ (List.getElem_mem _)

lemma merge_relabel (φ : Nat → Nat) (σ : StateId → StateId) (st : State) (kernel : List Item) :
    (st.relabel φ σ).merge (kernel.map (Item.rekey φ)) = (st.merge kernel).relabel φ σ := by
  simp only [merge, relabel, List.zipWith_map, List.map_zipWith]
  rfl

/-- Merging changes a state if it does so under other keys. -/
lemma merge_eq_iff (hcore : st.core = kernel.map Item.key) :
    (st.merge kernel).relabel φ σ = st.relabel φ σ ↔ st.merge kernel = st := by
  refine ⟨fun h => ?_, congrArg _⟩
  have hlookaheads : ∀ l : List Item, (l.map (Item.rekey φ)).map Item.lookaheads =
      l.map Item.lookaheads := by
    intro l
    rw [List.map_map]
    rfl
  have hext : ∀ l l' : List Item, l.map Item.key = l'.map Item.key →
      l.map Item.lookaheads = l'.map Item.lookaheads → l = l' := by
    intro l l' hkeys hsets
    have hzip : ∀ l : List Item,
        l = List.zipWith Item.mk (l.map Item.key) (l.map Item.lookaheads) := by
      intro l
      rw [List.zipWith_map, List.zipWith_self]
      exact (List.map_id l).symm
    rw [hzip l, hzip l', hkeys, hsets]
  have hkernel : (st.merge kernel).kernel = st.kernel := by
    refine hext _ _ (core_merge hcore) ?_
    have hsets := congrArg (List.map Item.lookaheads) (congrArg State.kernel h)
    simpa only [relabel, hlookaheads] using hsets
  have hst : (st.merge kernel) = ⟨(st.merge kernel).kernel, st.closure, st.transitions⟩ := rfl
  rw [hst, hkernel]

lemma setTarget_relabel (φ : Nat → Nat) (σ : StateId → StateId) (st : State) (part : Part)
    (dest : StateId) : (st.relabel φ σ).setTarget part (σ dest) =
      (st.setTarget part dest).relabel φ σ := by
  have hany : ((st.transitions.map fun t => (t.1, σ t.2)).any fun t => t.1 == part) =
      st.transitions.any fun t => t.1 == part := by
    rw [List.any_map]
    rfl
  simp only [setTarget, relabel, hany]
  split
  · simp only [List.map_map, State.mk.injEq, true_and]
    refine List.map_congr_left fun t _ => ?_
    simp only [Function.comp]
    split <;> rfl
  · rw [List.map_append]
    rfl

lemma target?_relabel (φ : Nat → Nat) (σ : StateId → StateId) (st : State) (part : Part) :
    (st.relabel φ σ).target? part = (st.target? part).map σ := by
  simp only [target?, relabel]
  induction st.transitions with
  | nil => rfl
  | cons t transitions ih =>
    rw [List.map_cons, List.lookup_cons, List.lookup_cons, ih]
    split <;> rfl

end State

namespace Basis.Mirrors

variable {b b' : Basis} {φ : Nat → Nat} {σ : StateId → StateId} {I : Set Nat} {S : Set SymbolId}
  {st : State} {l : List Item} {closure : List (SymbolId × TerminalSet)}

/-! ## Closures -/

lemma items (h : b.Mirrors b' φ I S) (σ : StateId → StateId) (hst : st.Within I S) :
    (st.relabel φ σ).items b' = (st.items b).map (Item.rekey φ) ∧
      ∀ item ∈ st.items b, item.key ∈ I := by
  have hopenings : ∀ x ∈ st.closure,
      b'.openings x.1 x.2 = (b.openings x.1 x.2).map (Item.rekey φ) :=
    fun x hx => (h.openings x.1 (hst.closure x hx) x.2).1
  refine ⟨?_, fun item hitem => ?_⟩
  · rw [State.items, State.items, List.map_append, List.map_flatMap]
    exact congrArg (_ ++ ·) (List.flatMap_congr hopenings)
  · rcases List.mem_append.mp hitem with hitem | hitem
    · exact hst.kernel item hitem
    · obtain ⟨x, hx, hitem⟩ := List.mem_flatMap.mp hitem
      exact (h.openings x.1 (hst.closure x hx) x.2).2 item hitem

lemma meet (h : b.Mirrors b' φ I S) (hl : ∀ item ∈ l, item.key ∈ I)
    (hclosure : ∀ x ∈ closure, x.1 ∈ S) :
    State.meet b' (l.map (Item.rekey φ)) closure = State.meet b l closure ∧
      ∀ x ∈ State.meet b l closure, x.1 ∈ S := by
  refine ⟨?_, State.forall_mem_foldl_raise (P := fun s _ => s ∈ S) (fun _ _ _ hs _ => hs) hclosure
    fun d hd => ?_⟩
  · have hdemands : ∀ item ∈ l, (b'.demand? ∘ Item.rekey φ) item = b.demand? item :=
      fun item hitem => (h.demand item (hl item hitem)).1
    rw [State.meet, State.meet, List.filterMap_map, List.filterMap_congr hdemands]
  · obtain ⟨item, hitem, hd⟩ := List.mem_filterMap.mp hd
    exact (h.demand item (hl item hitem)).2 d hd

lemma sweep (h : b.Mirrors b' φ I S) (fuel i : Nat) (hclosure : ∀ x ∈ closure, x.1 ∈ S) :
    State.sweep b' fuel i closure = State.sweep b fuel i closure ∧
      ∀ x ∈ State.sweep b fuel i closure, x.1 ∈ S := by
  induction fuel generalizing i closure with
  | zero => exact ⟨rfl, hclosure⟩
  | succ fuel ih =>
    rw [State.sweep, State.sweep]
    split
    · exact ⟨rfl, hclosure⟩
    · next s set hsome =>
      obtain ⟨heq, hkeys⟩ := h.openings s (hclosure _ (List.mem_of_getElem? hsome)) set
      obtain ⟨hmeet, hwithin⟩ := h.meet hkeys hclosure
      rw [heq, hmeet]
      exact ih (i + 1) hwithin

lemma spread (h : b.Mirrors b' φ I S) (hwidth : b.productions.width = b'.productions.width)
    (σ : StateId → StateId) (hst : st.Within I S) :
    (st.relabel φ σ).spread b' = (st.spread b).relabel φ σ ∧ (st.spread b).Within I S := by
  obtain ⟨hmeet, hwithin⟩ := h.meet hst.kernel hst.closure
  obtain ⟨hsweep, hclosure⟩ := h.sweep (b.productions.width + 1) 0 hwithin
  refine ⟨?_, hst.kernel, hclosure⟩
  simp only [State.spread, State.relabel, hmeet, ← hwidth, hsweep]

lemma close (h : b.Mirrors b' φ I S) (hwidth : b.productions.width = b'.productions.width)
    (σ : StateId → StateId) (hst : st.Within I S) :
    (st.relabel φ σ).close b' = (st.close b).relabel φ σ ∧ (st.close b).Within I S := by
  rw [State.close, State.close, ← hwidth]
  refine untilStable_map (m := State.relabel φ σ) (fun _ => h.spread hwidth σ)
    (fun st _ heq => ?_) _ hst
  exact congrArg (fun closure => { st with closure }) (congrArg State.closure heq)

/-! ## Transitions -/

lemma foldl_group (h : b.Mirrors b' φ I S) (hl : ∀ item ∈ l, item.key ∈ I)
    (groups : List (Part × List Item)) :
    (l.map (Item.rekey φ)).foldl (State.group b') (groups.map (rekeyMove φ)) =
      (l.foldl (State.group b) groups).map (rekeyMove φ) := by
  have hadd : ∀ (groups : List (Part × List Item)) (part : Part) (item : Item),
      State.addToGroup (groups.map (rekeyMove φ)) part (item.rekey φ) =
        (State.addToGroup groups part item).map (rekeyMove φ) := by
    intro groups part item
    induction groups with
    | nil => rfl
    | cons x groups ih =>
      obtain ⟨p, items⟩ := x
      rw [List.map_cons, rekeyMove, State.addToGroup, State.addToGroup, ih]
      by_cases hp : p = part
      · simp [hp, rekeyMove]
      · simp [hp, rekeyMove]
  induction l generalizing groups with
  | nil => rfl
  | cons item l ih =>
    obtain ⟨hitem, hl⟩ := List.forall_mem_cons.mp hl
    have hgroup : State.group b' (groups.map (rekeyMove φ)) (item.rekey φ) =
        (State.group b groups item).map (rekeyMove φ) := by
      rw [State.group, State.group, show (item.rekey φ).key = φ item.key from rfl,
        h.remaining item.key hitem]
      split
      · next part β hrest =>
        rw [(h.advance item hitem (by simp [hrest])).1, hadd]
      · rfl
    rw [List.map_cons, List.foldl_cons, List.foldl_cons, hgroup, ih hl]

lemma successors (h : b.Mirrors b' φ I S) (σ : StateId → StateId) (hst : st.Within I S) :
    (st.relabel φ σ).successors b' = (st.successors b).map (rekeyMove φ) ∧
      ∀ move ∈ st.successors b, ∀ item ∈ move.2, item.key ∈ I := by
  obtain ⟨hitems, hkeys⟩ := h.items σ hst
  have hmoves : ∀ part, ∀ item ∈ State.shifted b (st.items b) part, item.key ∈ I := by
    intro part item hitem
    obtain ⟨item', hitem', hadvance⟩ := List.mem_filterMap.mp hitem
    split at hadvance
    · next hhead =>
      cases hadvance
      refine (h.advance item' (hkeys item' hitem') fun hnil => ?_).2
      simp [hnil] at hhead
    · cases hadvance
  have hgroups : ∀ x ∈ (st.items b).foldl (State.group b) [], ∀ item ∈ x.2, item.key ∈ I := by
    rintro ⟨part, items⟩ hx item hitem
    have hlookup := State.lookup_foldl_group b (st.items b) [] part
    rw [State.lookup_of_mem (State.nodup_groups _) hx, Option.getD_some, List.lookup_nil,
      Option.getD_none, List.nil_append] at hlookup
    exact hmoves part item (hlookup ▸ hitem)
  constructor
  · have hfold := h.foldl_group hkeys []
    rw [List.map_nil] at hfold
    rw [State.successors_eq, State.successors_eq, hitems, hfold, List.map_map, List.map_map]
    refine List.map_congr_left fun x hx => ?_
    exact congrArg (x.1, ·) (Item.sort_rekey h.strictMono (hgroups x hx))
  · rintro ⟨part, k⟩ hmove item hitem
    obtain ⟨-, rfl⟩ := State.mem_successors.mp hmove
    exact hmoves part item ((Item.perm_sort _).mem_iff.mp hitem)

end Basis.Mirrors

/-! ## Discovery -/

namespace Discovery

/-- States that are not met again: the numbers of those after them are changed accordingly, and no
kernel entered later has the keys of one of them. -/
structure Apart (φ : Nat → Nat) (σ : StateId → StateId) (I : Set Nat)
    (before before' : List State) : Prop where
  number : ∀ i, σ (before.length + i) = before'.length + i
  core : ∀ st ∈ before, ∃ key ∈ st.core, key ∉ I
  core' : ∀ st ∈ before', ∃ key ∈ st.core, key ∉ φ '' I

/-- After some states that were found first, one discovery has the states of the other, under other
keys and numbers, and the same queue. -/
structure Mirrored (φ : Nat → Nat) (σ : StateId → StateId) (I : Set Nat) (S : Set SymbolId)
    (before before' : List State) (d d' : Discovery) : Prop where
  states : ∃ states, d.states = before ++ states ∧
    d'.states = before' ++ states.map (State.relabel φ σ) ∧ ∀ st ∈ states, st.Within I S
  queue : d'.queue = d.queue.map σ
  queued : ∀ i ∈ d.queue, before.length ≤ i

lemma getElem?_append_add {α : Type} (l l' : List α) (i : Nat) :
    (l ++ l')[l.length + i]? = l'[i]? := by
  rw [List.getElem?_append_right (Nat.le_add_right _ _), Nat.add_sub_cancel_left]

lemma set_append_add {α : Type} (l l' : List α) (i : Nat) (a : α) :
    (l ++ l').set (l.length + i) a = l ++ l'.set i a := by
  rw [List.set_append_right _ _ (Nat.le_add_right _ _), Nat.add_sub_cancel_left]

lemma modify_append_add {α : Type} (l l' : List α) (i : Nat) (f : α → α) :
    (l ++ l').modify (l.length + i) f = l ++ l'.modify i f := by
  induction l with
  | nil => simp
  | cons a l ih =>
    rw [List.length_cons, Nat.add_right_comm, List.cons_append, List.modify_succ_cons, ih]
    rfl

lemma modify_map {α β : Type} {m : α → β} {f : α → α} {g : β → β} (h : ∀ a, g (m a) = m (f a))
    (l : List α) (i : Nat) : (l.map m).modify i g = (l.modify i f).map m := by
  refine List.ext_getElem? fun j => ?_
  rw [List.getElem?_modify, List.getElem?_map, List.getElem?_map, List.getElem?_modify]
  cases l[j]? with
  | none => rfl
  | some a => split <;> simp [h]

namespace Mirrored

variable {b b' : Basis} {φ : Nat → Nat} {σ : StateId → StateId} {I : Set Nat} {S : Set SymbolId}
  {before before' : List State} {d d' : Discovery} {kernel : List Item}

/-- A kernel is found in both discoveries or in none. -/
lemma findIdx?_eq (hφ : StrictMonoOn φ I) (hapart : Apart φ σ I before before')
    {states : List State} (hwithin : ∀ st ∈ states, st.Within I S)
    (hkernel : ∀ item ∈ kernel, item.key ∈ I) :
    ((before ++ states).findIdx? fun st => st.core == kernel.map Item.key) =
        (states.findIdx? fun st => st.core == kernel.map Item.key).map (before.length + ·) ∧
      ((before' ++ states.map (State.relabel φ σ)).findIdx? fun st =>
          st.core == (kernel.map (Item.rekey φ)).map Item.key) =
        (states.findIdx? fun st => st.core == kernel.map Item.key).map (before'.length + ·) := by
  have hkeys : ∀ key ∈ kernel.map Item.key, key ∈ I := List.forall_mem_map.mpr hkernel
  have hnone : (before.findIdx? fun st => st.core == kernel.map Item.key) = none := by
    rw [List.findIdx?_eq_none_iff]
    intro st hst
    obtain ⟨key, hkey, hnot⟩ := hapart.core st hst
    rw [beq_eq_false_iff_ne]
    exact fun h => hnot (hkeys key (h ▸ hkey))
  have hnone' : (before'.findIdx? fun st =>
      st.core == (kernel.map (Item.rekey φ)).map Item.key) = none := by
    rw [List.findIdx?_eq_none_iff]
    intro st hst
    obtain ⟨key, hkey, hnot⟩ := hapart.core' st hst
    rw [beq_eq_false_iff_ne, map_key_rekey]
    rintro h
    obtain ⟨key₀, hkey₀, rfl⟩ := List.mem_map.mp (h ▸ hkey)
    exact hnot ⟨key₀, hkeys key₀ hkey₀, rfl⟩
  have hsame : ((states.map (State.relabel φ σ)).findIdx? fun st =>
      st.core == (kernel.map (Item.rekey φ)).map Item.key) =
        states.findIdx? fun st => st.core == kernel.map Item.key := by
    clear hnone hnone'
    induction states with
    | nil => rfl
    | cons st states ih =>
      obtain ⟨hst, hwithin⟩ := List.forall_mem_cons.mp hwithin
      have hcore : ((st.relabel φ σ).core == (kernel.map (Item.rekey φ)).map Item.key) =
          (st.core == kernel.map Item.key) := by
        rw [State.core_relabel, map_key_rekey, Bool.eq_iff_iff, beq_iff_eq, beq_iff_eq,
          map_inj_of_strictMonoOn hφ hst.core hkeys]
      rw [List.map_cons, List.findIdx?_cons, List.findIdx?_cons, hcore, ih hwithin]
  rw [List.findIdx?_append, List.findIdx?_append, hnone, hnone', hsame]
  simp only [Option.none_or, Nat.add_comm, and_self]

lemma enter (hφ : StrictMonoOn φ I) (hapart : Apart φ σ I before before')
    (h : Mirrored φ σ I S before before' d d') (hkernel : ∀ item ∈ kernel, item.key ∈ I) :
    (d'.enter (kernel.map (Item.rekey φ))).1 = σ (d.enter kernel).1 ∧
      Mirrored φ σ I S before before' (d.enter kernel).2
        (d'.enter (kernel.map (Item.rekey φ))).2 := by
  obtain ⟨⟨states, hd, hd', hwithin⟩, hqueue, hqueued⟩ := h
  obtain ⟨hfind, hfind'⟩ := findIdx?_eq hφ hapart hwithin hkernel
  rw [Discovery.enter, Discovery.enter, hd, hd', hqueue]
  simp only [hfind, hfind']
  cases hi : states.findIdx? fun st => st.core == kernel.map Item.key with
  | none =>
    simp only [Option.map_none, List.length_append, List.length_map]
    refine ⟨(hapart.number _).symm, ⟨states ++ [State.ofKernel kernel], ?_, ?_, ?_⟩, ?_, ?_⟩
    · exact List.append_assoc _ _ _
    · rw [List.map_append, ← List.append_assoc]
      rfl
    · refine List.forall_mem_append.mpr ⟨hwithin, List.forall_mem_singleton.mpr ⟨hkernel, ?_⟩⟩
      exact fun x hx => absurd hx List.not_mem_nil
    · rw [List.map_append, List.map_singleton, hapart.number]
    · refine List.forall_mem_append.mpr ⟨hqueued, List.forall_mem_singleton.mpr ?_⟩
      exact Nat.le_add_right _ _
  | some j =>
    obtain ⟨hj, hcore, -⟩ := List.findIdx?_eq_some_iff_getElem.mp hi
    have hst := hwithin _ (List.getElem_mem hj)
    have hold : ∀ default, (before ++ states).getD (before.length + j) default = states[j] := by
      intro default
      rw [List.getD_eq_getElem?_getD, getElem?_append_add, List.getElem?_eq_getElem hj,
        Option.getD_some]
    have hold' : ∀ default, (before' ++ states.map (State.relabel φ σ)).getD (before'.length + j)
        default = states[j].relabel φ σ := by
      intro default
      rw [List.getD_eq_getElem?_getD, getElem?_append_add, List.getElem?_map,
        List.getElem?_eq_getElem hj, Option.map_some, Option.getD_some]
    have hmerge := State.merge_eq_iff (φ := φ) (σ := σ) (by simpa using hcore)
    simp only [Option.map_some, hold, hold', State.merge_relabel, hmerge]
    refine ⟨(hapart.number j).symm, ?_⟩
    by_cases hsame : states[j].merge kernel = states[j]
    · rw [if_pos hsame, if_pos hsame]
      exact ⟨⟨states, hd, hd', hwithin⟩, hqueue, hqueued⟩
    · rw [if_neg hsame, if_neg hsame]
      refine ⟨⟨states.set j (states[j].merge kernel), set_append_add _ _ _ _, ?_, ?_⟩, ?_, ?_⟩
      · rw [set_append_add, List.map_set]
      · intro st hmem
        rcases List.mem_or_eq_of_mem_set hmem with hmem | rfl
        · exact hwithin st hmem
        · exact hst.merge kernel
      · rw [List.map_append, List.map_singleton, hapart.number]
      · refine List.forall_mem_append.mpr ⟨hqueued, List.forall_mem_singleton.mpr ?_⟩
        exact Nat.le_add_right _ _

lemma follow (hφ : StrictMonoOn φ I) (hapart : Apart φ σ I before before')
    (h : Mirrored φ σ I S before before' d d') {move : Part × List Item}
    (hmove : ∀ item ∈ move.2, item.key ∈ I) (j : Nat) :
    Mirrored φ σ I S before before' (d.follow (before.length + j) move)
      (d'.follow (before'.length + j) (rekeyMove φ move)) := by
  obtain ⟨hdest, ⟨states, hd, hd', hwithin⟩, hqueue, hqueued⟩ := h.enter hφ hapart hmove
  refine ⟨⟨states.modify j fun st => st.setTarget move.1 (d.enter move.2).1, ?_, ?_, ?_⟩,
    hqueue, hqueued⟩
  · simp only [Discovery.follow, hd, modify_append_add]
  · simp only [Discovery.follow, rekeyMove, hd', hdest, modify_append_add]
    rw [modify_map fun st => st.setTarget_relabel φ σ move.1 (d.enter move.2).1]
  · intro st hst
    obtain ⟨i, hi, rfl⟩ := List.mem_iff_getElem.mp hst
    rw [List.getElem_modify]
    have hst := hwithin _ (List.getElem_mem (by simpa using hi))
    split
    · exact ⟨hst.kernel, hst.closure⟩
    · exact hst

lemma foldl_follow (hφ : StrictMonoOn φ I) (hapart : Apart φ σ I before before')
    (h : Mirrored φ σ I S before before' d d') {moves : List (Part × List Item)}
    (hmoves : ∀ move ∈ moves, ∀ item ∈ move.2, item.key ∈ I) (j : Nat) :
    Mirrored φ σ I S before before' (moves.foldl (Discovery.follow (before.length + j)) d)
      ((moves.map (rekeyMove φ)).foldl (Discovery.follow (before'.length + j)) d') := by
  induction moves generalizing d d' with
  | nil => exact h
  | cons move moves ih =>
    obtain ⟨hmove, hmoves⟩ := List.forall_mem_cons.mp hmoves
    exact ih (h.follow hφ hapart hmove j) hmoves

lemma visit (hm : b.Mirrors b' φ I S) (hapart : Apart φ σ I before before')
    (h : Mirrored φ σ I S before before' d d') {i : StateId} (hi : before.length ≤ i)
    (hclose : ∀ st, d.states[i]? = some st → st.Within I S →
      (st.relabel φ σ).close b' = (st.close b).relabel φ σ ∧ (st.close b).Within I S) :
    Mirrored φ σ I S before before' (d.visit b i) (d'.visit b' (σ i)) := by
  obtain ⟨j, rfl⟩ := Nat.exists_eq_add_of_le hi
  have hm' := h
  obtain ⟨⟨states, hd, hd', hwithin⟩, hqueue, hqueued⟩ := h
  have hget : d.states[before.length + j]? = states[j]? := by
    rw [hd, getElem?_append_add]
  have hget' : d'.states[before'.length + j]? = states[j]?.map (State.relabel φ σ) := by
    rw [hd', getElem?_append_add, List.getElem?_map]
  rw [hget] at hclose
  rw [hapart.number, Discovery.visit, Discovery.visit, hget, hget']
  cases hst : states[j]? with
  | none => exact hm'
  | some st =>
    obtain ⟨hclosed, hst'⟩ := hclose st hst (hwithin st (List.mem_of_getElem? hst))
    obtain ⟨hsuccessors, hmoves⟩ := hm.successors σ hst'
    simp only [Option.map_some, hclosed, hsuccessors]
    have hset : Mirrored φ σ I S before before'
        { d with states := d.states.set (before.length + j) (st.close b) }
        { d' with states := d'.states.set (before'.length + j) ((st.close b).relabel φ σ) } := by
      refine ⟨⟨states.set j (st.close b), ?_, ?_, ?_⟩, hqueue, hqueued⟩
      · simp only [hd, set_append_add]
      · simp only [hd', set_append_add, List.map_set]
      · intro st' hmem
        rcases List.mem_or_eq_of_mem_set hmem with hmem | rfl
        · exact hwithin st' hmem
        · exact hst'
    exact hset.foldl_follow hm.strictMono hapart hmoves j

/-- Discovery over two such bases finds the same states. What is known of the first discovery has
to give that closures are completed alike. -/
lemma run (hm : b.Mirrors b' φ I S) (hapart : Apart φ σ I before before')
    {p : Discovery → Prop} (hvisit : ∀ d i queue, p d → d.queue = i :: queue →
      p (Discovery.visit b { d with queue } i))
    (hclose : ∀ d, p d → ∀ st ∈ d.states, st.Within I S →
      (st.relabel φ σ).close b' = (st.close b).relabel φ σ ∧ (st.close b).Within I S)
    (h : Mirrored φ σ I S before before' d d') (hd : p d) (fuel : Nat) :
    Mirrored φ σ I S before before' (Discovery.run b fuel d) (Discovery.run b' fuel d') := by
  induction fuel generalizing d d' with
  | zero => exact h
  | succ fuel ih =>
    rw [Discovery.run, Discovery.run, h.queue]
    cases hqueue : d.queue with
    | nil => exact h
    | cons i queue =>
      have hrest : Mirrored φ σ I S before before' { d with queue }
          { d' with queue := queue.map σ } :=
        ⟨h.states, rfl, fun j hj => h.queued j (hqueue ▸ List.mem_cons_of_mem i hj)⟩
      refine ih (hrest.visit hm hapart ?_ fun st hst => ?_) (hvisit d i queue hd hqueue)
      · exact h.queued i (hqueue ▸ List.mem_cons_self)
      · exact hclose d hd st (List.mem_of_getElem? hst)

end Mirrored

/-- Where the queue is empty more fuel changes nothing. -/
lemma run_of_le {b : Basis} {d : Discovery} {n m : Nat} (hle : n ≤ m)
    (hqueue : (run b n d).queue = []) : run b m d = run b n d := by
  have hdone : ∀ (m : Nat) (d : Discovery), d.queue = [] → run b m d = d := by
    rintro (_ | m) d hnil
    · rfl
    · simp only [run, hnil]
  induction n generalizing d m with
  | zero => exact hdone m d hqueue
  | succ n ih =>
    obtain ⟨m, rfl⟩ := Nat.exists_eq_add_of_le' (Nat.le_trans (Nat.succ_le_succ n.zero_le) hle)
    cases hd : d.queue with
    | nil => rw [hdone _ d hd, hdone _ d hd]
    | cons i queue =>
      simp only [run, hd] at hqueue ⊢
      exact ih (Nat.le_of_succ_le_succ hle) hqueue

end Discovery

/-! ## Bases of one width -/

namespace Basis.Mirrors

variable {b b' : Basis} {φ : Nat → Nat} {I : Set Nat} {S : Set SymbolId} {st : State}
  {d : Discovery}

/-- Discovery over two such bases of one width finds the same states but for the keys. -/
lemma run (h : b.Mirrors b' φ I S) (hwidth : b.productions.width = b'.productions.width)
    (hd : ∀ st ∈ d.states, st.Within I S) (fuel : Nat) :
    Discovery.run b' fuel ⟨d.states.map (State.relabel φ id), d.queue⟩ =
        ⟨(Discovery.run b fuel d).states.map (State.relabel φ id),
          (Discovery.run b fuel d).queue⟩ ∧
      ∀ st ∈ (Discovery.run b fuel d).states, st.Within I S := by
  have hapart : Discovery.Apart φ id I [] [] :=
    ⟨fun _ => rfl, fun _ h => absurd h List.not_mem_nil, fun _ h => absurd h List.not_mem_nil⟩
  have hstart : Discovery.Mirrored φ id I S [] [] d
      ⟨d.states.map (State.relabel φ id), d.queue⟩ :=
    ⟨⟨d.states, rfl, rfl, hd⟩, (List.map_id _).symm, fun _ _ => Nat.zero_le _⟩
  obtain ⟨⟨states, hstates, hstates', hwithin⟩, hqueue, -⟩ :=
    hstart.run h hapart (p := fun _ => True) (fun _ _ _ _ _ => trivial)
      (fun _ _ _ _ => h.close hwidth id) trivial fuel
  rw [List.nil_append] at hstates hstates'
  refine ⟨?_, hstates ▸ hwithin⟩
  cases hrun : Discovery.run b' fuel ⟨d.states.map (State.relabel φ id), d.queue⟩ with
  | mk states' queue' =>
    rw [hrun, List.map_id] at hqueue
    rw [hrun] at hstates'
    rw [Discovery.mk.injEq, hstates]
    exact ⟨hstates', hqueue⟩

/-- If the productions stand for the same rules, then so do the rows. -/
lemma ofState (h : b.Mirrors b' φ I S) (hwidth : b.productions.width = b'.productions.width)
    (hrule : ∀ key ∈ I, (b'.production (φ key)).rule = (b.production key).rule)
    (hst : st.Within I S) (g : Grammar) (i : StateId) :
    Row.ofState g b' i (st.relabel φ id) = Row.ofState g b i st := by
  obtain ⟨hitems, hkeys⟩ := h.items id hst
  have htarget : ∀ part, (st.relabel φ id).target? part = st.target? part := fun part => by
    rw [State.target?_relabel, Option.map_id, id]
  rw [Row.ofState, Row.ofState, hitems, hwidth, List.foldl_map]
  refine List.foldl_ext _ _ _ fun row item hitem => ?_
  have hkey := hkeys item hitem
  simp only [Row.addItem, Item.rekey, h.remaining _ hkey, hrule _ hkey, h.rhs _ hkey, htarget]

end Basis.Mirrors

/-! ## Keys are words -/

/-- All keys that are made are words. -/
lemma Basis.mirrors_words (b : Basis) : b.Mirrors b id {key | key < wordRange} Set.univ where
  strictMono := strictMono_id.strictMonoOn _
  remaining := fun _ _ => rfl
  rhs := fun _ _ => rfl
  advance := fun _ _ _ => ⟨rfl, Nat.mod_lt _ (Nat.two_pow_pos 32)⟩
  demand := fun _ _ => ⟨rfl, fun _ _ => trivial⟩
  openings := by
    refine fun s _ set => ⟨(List.map_id' _).symm, fun item hitem => ?_⟩
    obtain ⟨p, -, rfl⟩ := List.mem_map.mp hitem
    exact Nat.mod_lt _ (Nat.two_pow_pos 32)

lemma Basis.key_lt_of_mem_items {b : Basis} {st : State} (hst : st ∈ b.automaton.states)
    {item : Item} (hitem : item ∈ st.items b) : item.key < wordRange := by
  have hstart : ∀ st ∈ [State.ofKernel b.startKernel],
      st.Within {key | key < wordRange} Set.univ := by
    rw [List.forall_mem_singleton]
    refine ⟨List.forall_mem_singleton.mpr ?_, fun _ _ => trivial⟩
    exact Nat.mod_lt _ (Nat.two_pow_pos 32)
  obtain ⟨-, hwithin⟩ := b.mirrors_words.run (d := ⟨_, [0]⟩) rfl hstart b.visitBound
  exact (b.mirrors_words.items id (hwithin st hst)).2 item hitem

/-! ## Places of productions -/

/-- The key of the item in the place of the one of a key, where productions have other numbers. -/
def Basis.placeKey (b : Basis) (ps : Productions) (π : Nat → Nat) (key : Nat) : Nat :=
  ps.basis.key (π (b.productionOf key)) (b.dotOf key)

/-- Some items of a basis have places among the items of some productions, in the same order. In
these places stand the same right-hand sides, and the symbols after the dots open alike. -/
structure Basis.Placed (b : Basis) (ps : Productions) (π : Nat → Nat) (N : Set Dotted)
    (S : Set SymbolId) : Prop where
  mono : ∀ i ∈ N, ∀ j ∈ N, i.production < j.production → π i.production < π j.production
  production : ∀ i ∈ N, ∃ prod prod', b.productions.get? i.production = some prod ∧
    ps.get? (π i.production) = some prod' ∧ prod'.rhs = prod.rhs ∧
      i.dot ≤ prod.rhs.length ∧ prod.rhs.length < b.stride ∧
        i.production * b.stride + prod.rhs.length < wordRange ∧
          π i.production * ps.stride + prod.rhs.length < wordRange
  moves : ∀ i ∈ N, ∀ prod, b.productions.get? i.production = some prod →
    i.dot < prod.rhs.length → i.advance ∈ N
  demand : ∀ i ∈ N, ∀ prod, b.productions.get? i.production = some prod →
    ∀ s β, prod.rhs.drop i.dot = .nonterminal s :: β →
      s ∈ S ∧ ∀ set, (FirstSets.compute ps).ahead β set = b.firsts.ahead β set
  openings : ∀ s ∈ S, (ps.range s).map (ps.basis.key · 0) =
      (b.productions.range s).map (fun p => b.placeKey ps π (b.key p 0)) ∧
    ∀ p ∈ b.productions.range s, b.dotted (b.key p 0) ∈ N

namespace Basis.Placed

variable {b : Basis} {ps : Productions} {π : Nat → Nat} {N : Set Dotted} {S : Set SymbolId}
  {key : Nat}

lemma placeKey_eq (h : b.Placed ps π N S) (hkey : b.dotted key ∈ N) :
    b.placeKey ps π key = π (b.productionOf key) * ps.stride + b.dotOf key := by
  obtain ⟨_, _, -, -, -, hdot, -, -, hfit⟩ := h.production _ hkey
  exact Nat.mod_eq_of_lt (Nat.lt_of_le_of_lt (Nat.add_le_add_left hdot _) hfit)

lemma dotted_placeKey (h : b.Placed ps π N S) (hkey : b.dotted key ∈ N) :
    ps.basis.dotted (b.placeKey ps π key) = ⟨π (b.productionOf key), b.dotOf key⟩ := by
  obtain ⟨_, _, -, hprod', hrhs, hdot, -, -, hfit⟩ := h.production _ hkey
  have hlt := Productions.length_lt_stride hprod'
  rw [hrhs] at hlt
  exact Productions.dotted_key_of_lt (Nat.lt_of_le_of_lt (Nat.add_le_add_left hdot _) hfit)
    (Nat.lt_of_le_of_lt hdot hlt)

lemma production_placeKey (h : b.Placed ps π N S) (hkey : b.dotted key ∈ N) {prod : Production}
    (hprod : ps.get? (π (b.productionOf key)) = some prod) :
    ps.basis.production (b.placeKey ps π key) = prod :=
  Productions.production_eq ((congrArg ps.get? (congrArg _ (h.dotted_placeKey hkey))).trans hprod)

lemma rhs_placeKey (h : b.Placed ps π N S) (hkey : b.dotted key ∈ N) :
    (ps.basis.production (b.placeKey ps π key)).rhs = (b.production key).rhs := by
  obtain ⟨prod, prod', hprod, hprod', hrhs, -⟩ := h.production _ hkey
  rw [Basis.production_eq hprod, h.production_placeKey hkey hprod', hrhs]

lemma remaining_placeKey (h : b.Placed ps π N S) (hkey : b.dotted key ∈ N) :
    ps.basis.remaining (b.placeKey ps π key) = b.remaining key := by
  have hdot : ps.basis.dotOf (b.placeKey ps π key) = b.dotOf key :=
    congrArg Dotted.dot (h.dotted_placeKey hkey)
  rw [Basis.remaining, Basis.remaining, h.rhs_placeKey hkey, hdot]

/-- Keys in their places are in the same order. -/
lemma placeKey_strictMonoOn (h : b.Placed ps π N S) :
    StrictMonoOn (b.placeKey ps π) {key | b.dotted key ∈ N} := by
  intro k hk l hl hlt
  obtain ⟨prod, prod', -, hprod', hrhs, hdot, -, -, -⟩ := h.production _ hk
  have hlength := hrhs ▸ Productions.length_lt_stride hprod'
  rw [h.placeKey_eq hk, h.placeKey_eq hl]
  rcases Nat.lt_or_eq_of_le (Nat.div_le_div_right (c := b.stride) hlt.le) with hp | hp
  · -- the place of a later production is behind all dots of this one
    have hlt : π (b.productionOf k) < π (b.productionOf l) := h.mono _ hk _ hl hp
    have hmul := Nat.mul_le_mul_right ps.stride (Nat.succ_le_of_lt hlt)
    rw [Nat.succ_mul] at hmul
    have hdot : b.dotOf k ≤ prod.rhs.length := hdot
    omega
  · have hdots : b.dotOf k < b.dotOf l := by
      have hk := Nat.div_add_mod k b.stride
      have hl := Nat.div_add_mod l b.stride
      rw [hp] at hk
      show k % b.stride < l % b.stride
      omega
    have hsame : b.productionOf k = b.productionOf l := hp
    rw [hsame]
    omega

lemma mirrors (h : b.Placed ps π N S) :
    b.Mirrors ps.basis (b.placeKey ps π) {key | b.dotted key ∈ N} S := by
  refine ⟨h.placeKey_strictMonoOn, fun _ => h.remaining_placeKey, fun _ => h.rhs_placeKey,
    ?advance, ?demand, ?openings⟩
  case advance =>
    intro item hkey hne
    obtain ⟨prod, _, hprod, -, -, -, hstride, hfit, -⟩ := h.production _ hkey
    rw [Basis.remaining, Basis.production_eq hprod, ne_eq, List.drop_eq_nil_iff, not_le] at hne
    have hadvance : b.dotted (b.advance item).key = (b.dotted item.key).advance :=
      Basis.dotted_key_of_lt (Nat.lt_of_le_of_lt (Nat.add_le_add_left hne _) hfit)
        (Nat.lt_of_le_of_lt hne hstride)
    refine ⟨?_, ?_⟩
    · have hdotted := h.dotted_placeKey hkey
      have hmoved := hadvance
      simp only [Basis.dotted, Dotted.advance, Dotted.mk.injEq] at hdotted hmoved
      simp only [Basis.advance, Item.rekey, Basis.placeKey] at hdotted hmoved ⊢
      rw [hdotted.1, hdotted.2, hmoved.1, hmoved.2]
    · show b.dotted (b.advance item).key ∈ N
      rw [hadvance]
      exact h.moves _ hkey prod hprod hne
  case demand =>
    intro item hkey
    obtain ⟨prod, _, hprod, -⟩ := h.production _ hkey
    rw [Basis.demand?, Basis.demand?, Item.rekey, h.remaining_placeKey hkey, Basis.remaining,
      Basis.production_eq hprod]
    split
    · next s β hrest =>
      obtain ⟨hs, hahead⟩ := h.demand _ hkey prod hprod s β hrest
      rw [Productions.basis_firsts, hahead]
      exact ⟨rfl, by rintro _ ⟨⟩; exact hs⟩
    · exact ⟨rfl, by rintro _ ⟨⟩⟩
  case openings =>
    intro s hs set
    obtain ⟨hkeys, hmem⟩ := h.openings s hs
    refine ⟨?_, fun item hitem => ?_⟩
    · have hitems : ∀ (l : List Nat) (f : Nat → Nat),
          l.map (fun p => (⟨f p, set⟩ : Item)) = (l.map f).map fun key => ⟨key, set⟩ := by
        intro l f
        rw [List.map_map]
        rfl
      rw [Basis.openings, Basis.openings, List.map_map, hitems _ (ps.basis.key · 0)]
      show ((ps.range s).map (ps.basis.key · 0)).map _ = _
      rw [hkeys, List.map_map]
      rfl
    · obtain ⟨p, hp, rfl⟩ := List.mem_map.mp hitem
      exact hmem p hp

end Basis.Placed

end ShiftReduce
