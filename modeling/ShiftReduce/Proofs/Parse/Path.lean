import ShiftReduce.Parse.Basic
import ShiftReduce.Proofs.Table.Built
/-!
# Stacks are paths

The states on the stack form a path of the automaton from its start, over the symbols that were
shifted or reduced to. An item in the state on top says what these symbols are: those before the dot
are the last ones of the path, and below them is a state in which the production begins.
-/

namespace ShiftReduce

/-- The states of the frames form a path from the start of the automaton, and the labels, topmost
first, are the symbols it goes over. -/
def Automaton.Path (a : Automaton) (g : Grammar) : List SymbolId → List Frame → Prop
  | [], [] => True
  | label :: labels, frame :: frames =>
    (∃ st, a.states[Configuration.topState frames]? = some st ∧
      st.target? (g.part label) = some frame.state) ∧ Path a g labels frames
  | _, _ => False

namespace Automaton.Path

variable {a : Automaton} {g : Grammar} {labels : List SymbolId} {frames : List Frame}

lemma length_eq (h : a.Path g labels frames) : labels.length = frames.length := by
  induction labels generalizing frames with
  | nil =>
    cases frames with
    | nil => rfl
    | cons frame frames => exact h.elim
  | cons label labels ih =>
    cases frames with
    | nil => exact h.elim
    | cons frame frames => simp [ih h.2]

lemma drop (h : a.Path g labels frames) (n : Nat) : a.Path g (labels.drop n) (frames.drop n) := by
  induction n generalizing labels frames with
  | zero => simpa using h
  | succ n ih =>
    cases labels with
    | nil =>
      cases frames with
      | nil => exact h
      | cons frame frames => exact h.elim
    | cons label labels =>
      cases frames with
      | nil => exact h.elim
      | cons frame frames => exact ih h.2

end Automaton.Path

namespace Grammar.Builds

variable {g : Grammar} {target : SymbolId} {t : ActionTable} {labels : List SymbolId}
  {frames : List Frame} {st : State} {i : Dotted} {prod : Production}

/-- The state on top of a path is a state of the automaton. -/
lemma exists_topState (h : g.Builds target t)
    (hpath : (g.automatonOf target).Path g labels frames) :
    ∃ st, (g.automatonOf target).states[Configuration.topState frames]? = some st := by
  cases frames with
  | nil =>
    obtain ⟨st, hst, -⟩ := h.isLalr.start
    exact ⟨st, hst⟩
  | cons frame frames =>
    cases labels with
    | nil => exact hpath.elim
    | cons label labels =>
      obtain ⟨⟨st, hst, htarget⟩, -⟩ := hpath
      obtain ⟨st', hst', -⟩ := h.exists_rest_of_target (List.mem_of_getElem? hst) htarget
      exact ⟨st', hst'⟩

/-- A path with a state on it whose kernel has an item with the dot in front is empty. -/
lemma frames_eq_nil (h : g.Builds target t) (hpath : (g.automatonOf target).Path g labels frames)
    (hst : (g.automatonOf target).states[Configuration.topState frames]? = some st)
    (hi : i ∈ st.kernelSet (g.productions target)) (hdot : i.dot = 0) : frames = [] := by
  cases frames with
  | nil => rfl
  | cons frame frames =>
    cases labels with
    | nil => exact hpath.elim
    | cons label labels =>
      obtain ⟨⟨st', hst', htarget⟩, -⟩ := hpath
      obtain ⟨st'', hst'', hset⟩ := h.exists_rest_of_target (List.mem_of_getElem? hst') htarget
      have heq : st'' = st := Option.some.inj (hst''.symm.trans hst)
      rw [← heq, hset] at hi
      obtain ⟨j, -, β, -, rfl⟩ := hi
      exact absurd hdot (Nat.succ_ne_zero j.dot)

/-- The labels on top of a path are the symbols before the dot of any item of its last state, and
below them the production of the item begins. -/
lemma viable (h : g.Builds target t) (hpath : (g.automatonOf target).Path g labels frames)
    (hst : (g.automatonOf target).states[Configuration.topState frames]? = some st)
    (hi : i ∈ (g.productions target).closure (st.kernelSet (g.productions target)))
    (hp : (g.productions target).get? i.production = some prod) :
    (labels.take i.dot).map g.part = (prod.rhs.take i.dot).reverse ∧ i.dot ≤ labels.length ∧
      ∃ st₀, (g.automatonOf target).states[Configuration.topState (frames.drop i.dot)]? = some st₀ ∧
        ⟨i.production, 0⟩ ∈
          (g.productions target).closure (st₀.kernelSet (g.productions target)) := by
  obtain ⟨p, dot⟩ := i
  induction dot generalizing labels frames st with
  | zero => exact ⟨rfl, Nat.zero_le _, st, hst, hi⟩
  | succ dot ih =>
    -- the item is not one that the closure adds, so it was entered from the state below
    have hkernel : ⟨p, dot + 1⟩ ∈ st.kernelSet (g.productions target) :=
      (h.proper.mem_closure hi).resolve_right fun hh => absurd hh.1 (Nat.succ_ne_zero dot)
    cases frames with
    | nil =>
      obtain ⟨st₀, hst₀, hset⟩ := h.isLalr.start
      have heq : st = st₀ := Option.some.inj (hst.symm.trans hst₀)
      rw [heq, hset, Set.mem_singleton_iff] at hkernel
      cases hkernel
    | cons frame frames =>
      cases labels with
      | nil => exact hpath.elim
      | cons label labels =>
        obtain ⟨⟨st', hst', htarget⟩, hpath⟩ := hpath
        obtain ⟨st'', hst'', hset⟩ := h.exists_rest_of_target (List.mem_of_getElem? hst') htarget
        have heq : st'' = st := Option.some.inj (hst''.symm.trans hst)
        rw [← heq, hset] at hkernel
        obtain ⟨⟨q, d⟩, hj, β, hrest, hadvance⟩ := hkernel
        simp only [Dotted.advance, Dotted.mk.injEq, Nat.add_right_cancel_iff] at hadvance
        obtain ⟨rfl, rfl⟩ := hadvance
        obtain ⟨hlabels, hlength, hbelow⟩ := ih hpath hst' hj hp
        obtain ⟨prod', hp', hpart, -⟩ := Productions.exists_production_of_rest hrest
        rw [hp, Option.some.injEq] at hp'
        subst hp'
        refine ⟨?_, Nat.succ_le_succ hlength, hbelow⟩
        rw [List.take_succ_cons, List.map_cons, hlabels, List.take_add_one, hpart,
          Option.toList_some, List.reverse_append, List.reverse_singleton, List.singleton_append]

/-- The complete item of a rule: the labels on top are the symbols of the rule, and below them the
rule's target can be recognised. -/
lemma viable_rule (h : g.Builds target t) (hpath : (g.automatonOf target).Path g labels frames)
    (hst : (g.automatonOf target).states[Configuration.topState frames]? = some st) {r : Rule}
    (hi : i ∈ (g.productions target).closure (st.kernelSet (g.productions target)))
    (hp : (g.productions target).get? i.production = some (g.production r))
    (hne : i.production ≠ 0) (hdot : i.dot = r.arity) :
    labels.take r.arity = r.symbols.reverse ∧ r.arity ≤ frames.length ∧
      ∃ st₀, (g.automatonOf target).states[Configuration.topState (frames.drop r.arity)]? =
        some st₀ ∧
      ∃ dest, t.goto? (Configuration.topState (frames.drop r.arity)) r.target = some dest ∧
        st₀.target? (.nonterminal r.target) = some dest := by
  obtain ⟨hlabels, hlength, st₀, hst₀, hbegin⟩ := h.viable hpath hst hi hp
  rw [hdot] at hlabels hlength hst₀
  refine ⟨?_, hpath.length_eq ▸ hlength, st₀, hst₀, ?_⟩
  · have htake : (g.production r).rhs.take r.arity = r.symbols.map g.part :=
      List.take_of_length_le (by simp [production, Rule.arity])
    rw [htake, ← List.map_reverse] at hlabels
    exact List.map_injective_iff.mpr g.part_injective hlabels
  · -- the production is begun because its left-hand side stands after a dot
    cases hbegin with
    | kernel hkernel =>
      rcases (h.isLalr.reachable st₀ (List.mem_of_getElem? hst₀)).start_or_moved hkernel with
        hstart | hpos
      · exact absurd (congrArg Dotted.production hstart) hne
      · exact absurd hpos (Nat.lt_irrefl 0)
    | opening hj hrest hopen =>
      obtain ⟨-, prod, hprod, hlhs⟩ := hopen
      have heq : some prod = some (g.production r) := hprod.symm.trans hp
      rw [Option.some.injEq] at heq
      subst heq
      subst hlhs
      exact h.goto_of_rest hst₀ hj hrest

/-- The complete item of `^`: the path has one label, the accepted symbol. -/
lemma viable_target (h : g.Builds target t) (hpath : (g.automatonOf target).Path g labels frames)
    (hst : (g.automatonOf target).states[Configuration.topState frames]? = some st)
    (hi : ⟨0, 1⟩ ∈ (g.productions target).closure (st.kernelSet (g.productions target))) :
    labels = [target] := by
  obtain ⟨hlabels, hlength, st₀, hst₀, hbegin⟩ := h.viable hpath hst hi h.proper.start
  -- below the one label is the start state, and nothing is below that
  have hkernel : ⟨0, 0⟩ ∈ st₀.kernelSet (g.productions target) :=
    (h.proper.mem_closure hbegin).resolve_right fun hh => hh.2 rfl
  have hnil := h.frames_eq_nil (hpath.drop 1) hst₀ hkernel rfl
  have hone : labels.length = 1 := by
    have hle := List.drop_eq_nil_iff.mp hnil
    rw [← hpath.length_eq] at hle
    exact Nat.le_antisymm hle hlength
  obtain ⟨label, rfl⟩ := List.length_eq_one_iff.mp hone
  have hpart : g.part label = .nonterminal target := by simpa using hlabels
  rw [← g.part_symbol label, hpart]
  rfl

end Grammar.Builds

end ShiftReduce
