import ShiftReduce.Parse.Build
import ShiftReduce.Proofs.Table.Reading
/-!
# Tables over the first productions

A grammar may have a great many productions of which its automaton comes upon the first few only. A
small basis with a stride of its own, whose first productions say the same and whose symbols open
with the same items, then stands for all of them: its table, which can be computed, is the table of
the grammar. It does not matter which productions the keys of opening items really belong to.

Main statement: `Grammar.FrontBasis.table`.
-/

namespace ShiftReduce

/-! ## Strings that need no first sets -/

lemma FirstSets.ahead_nil (f f' : FirstSets) (set : TerminalSet) :
    f.ahead [] set = f'.ahead [] set := rfl

lemma FirstSets.ahead_terminal (f f' : FirstSets) (s : SymbolId) (β : List Part)
    (set : TerminalSet) : f.ahead (.terminal s :: β) set = f'.ahead (.terminal s :: β) set := rfl

namespace Grammar

/-! ## The small basis -/

/-- The items of the first productions. -/
def frontItems (front : List Production) : Set Dotted :=
  {i | ∃ prod, front[i.production]? = some prod ∧ i.dot ≤ prod.rhs.length}

/-- A basis whose first productions say what those of the grammar say, with a stride of its own, and
in which the symbols of some set, to which all non-terminals of these productions belong, open with
the same items. -/
structure FrontBasis (g : Grammar) (s : SymbolId) (front : List Production) (S : Set SymbolId)
    (small : Basis) : Prop where
  target : g.target = some s
  first : front <+: (g.productions s).list.toList
  width : small.productions.width = (g.productions s).width
  fits : front.length * (g.productions s).stride ≤ wordRange
  fits_small : front.length * small.stride ≤ wordRange
  short : ∀ prod ∈ front, prod.rhs.length < small.stride
  same : ∀ p prod, front[p]? = some prod → ∃ prod', small.productions.get? p = some prod' ∧
    prod'.rhs = prod.rhs ∧ prod'.rule = prod.rule
  demand : ∀ prod ∈ front, ∀ dot s' β, prod.rhs.drop dot = .nonterminal s' :: β → s' ∈ S ∧
    ∀ set, (FirstSets.compute (g.productions s)).ahead β set = small.firsts.ahead β set
  openings : ∀ s' ∈ S, ∃ items : List Dotted,
    ((small.productions.range s').map fun p => small.dotted (small.key p 0)) = items ∧
      ((g.productions s).range s').map (fun p => p * (g.productions s).stride % wordRange) =
        items.map (fun i => (i.production * (g.productions s).stride + i.dot) % wordRange) ∧
          ∀ i ∈ items, i ∈ frontItems front

/-- What a basis that begins with the first productions says of them. -/
lemma get?_of_append {small : Basis} {front rest : List Production}
    (h : small.productions.list.toList = front ++ rest) :
    ∀ p prod, front[p]? = some prod → ∃ prod', small.productions.get? p = some prod' ∧
      prod'.rhs = prod.rhs ∧ prod'.rule = prod.rule := by
  intro p prod hp
  obtain ⟨hlt, -⟩ := List.getElem?_eq_some_iff.mp hp
  refine ⟨prod, ?_, rfl, rfl⟩
  rw [Productions.get?, ← Array.getElem?_toList, h, List.getElem?_append_left hlt, hp]

namespace FrontBasis

variable {g : Grammar} {s : SymbolId} {front : List Production} {S : Set SymbolId} {small : Basis}
  {p : Nat} {prod : Production} (h : FrontBasis g s front S small)

include h

lemma get? (hp : front[p]? = some prod) : (g.productions s).get? p = some prod := by
  obtain ⟨rest, hlist⟩ := h.first
  obtain ⟨hlt, -⟩ := List.getElem?_eq_some_iff.mp hp
  rw [Productions.get?, ← Array.getElem?_toList, ← hlist, List.getElem?_append_left hlt, hp]

lemma placed : small.Placed (g.productions s) id (frontItems front) S where
  mono := fun _ _ _ _ hlt => hlt
  production := by
    rintro ⟨p, dot⟩ ⟨prod, hprod, hdot⟩
    obtain ⟨prod', hprod', hrhs, -⟩ := h.same p prod hprod
    obtain ⟨hp, -⟩ := List.getElem?_eq_some_iff.mp hprod
    have hget := h.get? hprod
    have hlt := h.short prod (List.mem_of_getElem? hprod)
    -- all keys of a production in front lie before the place where the next one would begin
    have hbound : ∀ stride, prod.rhs.length < stride → front.length * stride ≤ wordRange →
        p * stride + prod.rhs.length < wordRange := by
      intro stride hlt hfit
      have hmul : (p + 1) * stride ≤ front.length * stride := Nat.mul_le_mul_right stride hp
      rw [Nat.succ_mul] at hmul
      omega
    refine ⟨prod', prod, hprod', hget, hrhs.symm, ?_⟩
    rw [hrhs]
    exact ⟨hdot, hlt, hbound _ hlt h.fits_small,
      hbound _ (Productions.length_lt_stride hget) h.fits⟩
  moves := by
    rintro ⟨p, dot⟩ ⟨prod, hprod, -⟩ prod' hprod' hlt
    obtain ⟨prod'', hprod'', hrhs, -⟩ := h.same p prod hprod
    cases hprod'.symm.trans hprod''
    exact ⟨prod, hprod, hrhs ▸ hlt⟩
  demand := by
    rintro ⟨p, dot⟩ ⟨prod, hprod, -⟩ prod' hprod' s' β hrest
    obtain ⟨prod'', hprod'', hrhs, -⟩ := h.same p prod hprod
    cases hprod'.symm.trans hprod''
    exact h.demand prod (List.mem_of_getElem? hprod) dot s' β (hrhs ▸ hrest)
  openings := by
    intro s' hs
    obtain ⟨_, rfl, hkeys, hmem⟩ := h.openings s' hs
    refine ⟨?_, List.forall_mem_map.mp hmem⟩
    have hkey : ∀ p dot, (g.productions s).basis.key p dot =
        (p * (g.productions s).stride + dot) % wordRange := fun _ _ => rfl
    simp only [Basis.placeKey, id, hkey, Nat.add_zero]
    rw [hkeys, List.map_map]
    rfl

/-- The automaton of the grammar is found over the small basis, if the queue runs empty there. -/
lemma automaton (hne : front ≠ []) (hvalidate : g.validate = .ok ()) {fuel : Nat}
    (hfuel : fuel ≤ (g.productions s).basis.visitBound) {d : Discovery}
    (hrun : Discovery.run small fuel ⟨[State.ofKernel small.startKernel], [0]⟩ = d)
    (hqueue : d.queue = []) :
    g.automaton = .ok ⟨(g.productions s).basis,
        d.states.map (State.relabel (small.placeKey (g.productions s) id) id)⟩ ∧
      ∀ st ∈ d.states, st.Within {key | small.dotted key ∈ frontItems front} S := by
  have hstart : small.dotted (small.key 0 0) ∈ frontItems front := by
    have hdotted : small.dotted (small.key 0 0) = ⟨0, 0⟩ := by
      simp [Basis.key, Basis.dotted, Basis.productionOf, Basis.dotOf]
    obtain ⟨prod, rest, rfl⟩ := List.exists_cons_of_ne_nil hne
    exact (congrArg (· ∈ frontItems (prod :: rest)) hdotted).mpr ⟨prod, rfl, Nat.zero_le _⟩
  have hwithin : ∀ st ∈ [State.ofKernel small.startKernel],
      st.Within {key | small.dotted key ∈ frontItems front} S := by
    rw [List.forall_mem_singleton]
    exact ⟨List.forall_mem_singleton.mpr hstart, fun x hx => absurd hx List.not_mem_nil⟩
  have hkernel : [State.ofKernel (g.productions s).basis.startKernel] =
      [State.ofKernel small.startKernel].map
        (State.relabel (small.placeKey (g.productions s) id) id) := by
    simp [State.relabel, State.ofKernel, Basis.startKernel, Item.rekey, Basis.placeKey,
      Basis.key, Basis.productionOf, Basis.dotOf]
  -- the queue runs empty over the small basis, so it does over the whole one
  obtain ⟨hmirrored, hstates⟩ := h.placed.mirrors.run (d := ⟨_, [0]⟩) h.width hwithin fuel
  rw [hrun] at hmirrored hstates
  have hlonger := Discovery.run_of_le hfuel ((congrArg Discovery.queue hmirrored).trans hqueue)
  refine ⟨?_, hstates⟩
  simp only [Grammar.automaton, hvalidate, h.target, Basis.automaton, hkernel, hlonger, hmirrored]

/-- So are the rows of its table. -/
lemma table (hne : front ≠ []) (hvalidate : g.validate = .ok ()) {fuel : Nat}
    (hfuel : fuel ≤ (g.productions s).basis.visitBound) {d : Discovery}
    (hrun : Discovery.run small fuel ⟨[State.ofKernel small.startKernel], [0]⟩ = d)
    (hqueue : d.queue = []) {rows : List Row}
    (hrows : (d.states.mapIdx fun i st => Row.ofState g small i st) = rows) :
    g.table = .ok ⟨g.fingerprint, g.symbols.size, rows.map Row.actions, rows.map Row.gotos,
      rows.map (Row.expected g), rows.flatMap Row.conflicts⟩ := by
  obtain ⟨hautomaton, hwithin⟩ := h.automaton hne hvalidate hfuel hrun hqueue
  have hrule : ∀ key ∈ {key | small.dotted key ∈ frontItems front},
      ((g.productions s).basis.production
        (small.placeKey (g.productions s) id key)).rule = (small.production key).rule := by
    intro key hkey
    obtain ⟨prod, hprod, -⟩ := id hkey
    obtain ⟨prod', hprod', -, hrule⟩ := h.same _ prod hprod
    rw [h.placed.production_placeKey hkey (h.get? hprod), Basis.production_eq hprod', hrule]
  have hsame : ((d.states.map (State.relabel (small.placeKey (g.productions s) id) id)).mapIdx
      fun i st => Row.ofState g (g.productions s).basis i st) = rows := by
    rw [← hrows]
    refine List.ext_getElem (by simp) fun i hi hi' => ?_
    rw [List.getElem_mapIdx, List.getElem_mapIdx, List.getElem_map]
    exact h.placed.mirrors.ofState h.width hrule (hwithin _ (List.getElem_mem _)) _ i
  rw [Grammar.table, hautomaton, Except.map, Automaton.table]
  simp only [hsame]
  rfl

end FrontBasis

end Grammar

end ShiftReduce
